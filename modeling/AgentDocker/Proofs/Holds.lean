import AgentDocker.Daemon.Service

/-!
# What one hold can do

Everything said about runs of the daemon is said about its holds first, and
once: this file lists what the functions of a hold do to the four things
anybody coordinates by, the lease table, the queue, the events that went out
and the health of the storage. Later files read the lists and never the
functions.

`Moved` is what all of them share, and `Mirroring` what they do about the rows
in the database. `Passed` is time passing: leases may go, each with its event.
`RingsBroken` is the breaking of rings: waits may go, each with its event.
`Ended` is a place given up.
-/

namespace AgentDocker

open AgentDocker.Core Lib Keyed

namespace Daemon

/-- How an event says the wait with this ticket ended, if it does. -/
def EventKind.ends (ticket : Nat) : EventKind → Option WaitOutcome
  | .leaseWaitEnded _ _ outcome (some t) => if t = ticket then some outcome else none
  | _ => none

/-- How a wait ended, once for each event that says so. -/
def endings (events : List Event) (ticket : Nat) : List WaitOutcome :=
  events.filterMap fun e => e.kind.ends ticket

/-- Events that end no wait. -/
def Quiet (events : List Event) : Prop :=
  ∀ e ∈ events, ∀ ticket, e.kind.ends ticket = none

theorem endings_append (a b : List Event) (ticket : Nat) :
    endings (a ++ b) ticket = endings a ticket ++ endings b ticket :=
  List.filterMap_append

theorem Quiet.endings {events : List Event} (h : Quiet events) (ticket : Nat) :
    endings events ticket = [] :=
  List.filterMap_eq_nil_iff.mpr fun e he => h e he ticket

theorem Quiet.append {a b : List Event} (ha : Quiet a) (hb : Quiet b) : Quiet (a ++ b) :=
  fun e he => (List.mem_append.mp he).elim (ha e) (hb e)

end Daemon

namespace Core.WaitQueue

/-- Whether a ticket is in the queue. -/
def Queued (q : WaitQueue) (ticket : Nat) : Prop := ∃ w ∈ q.waiters, w.ticket = ticket

/-- Whether a ticket's wait was ended to break a ring nobody has read yet. -/
def RingBroken (q : WaitQueue) (ticket : Nat) : Prop := ∃ b ∈ q.broken, b.1 = ticket

instance (q : WaitQueue) (ticket : Nat) : Decidable (q.Queued ticket) :=
  inferInstanceAs (Decidable (∃ w ∈ q.waiters.rows, w.ticket = ticket))

instance (q : WaitQueue) (ticket : Nat) : Decidable (q.RingBroken ticket) :=
  inferInstanceAs (Decidable (∃ b ∈ q.broken.rows, b.1 = ticket))

end Core.WaitQueue

namespace Daemon

/-- The queue without a guard's place. -/
def Waiting.left (g : Waiting) (q : WaitQueue) : WaitQueue :=
  match g.ticket with
  | none => q
  | some ticket => (q.leave ticket).1

variable {t : Nat} {q : WaitQueue} {g : Waiting}

theorem Waiting.mem_left {w : Waiter} :
    w ∈ (g.left q).waiters ↔ w ∈ q.waiters ∧ g.ticket ≠ some w.ticket := by
  unfold Waiting.left
  cases g.ticket with
  | none => simp
  | some => simp [eq_comm]

theorem Waiting.left_nextTicket (g : Waiting) (q : WaitQueue) :
    (g.left q).nextTicket = q.nextTicket := by
  unfold Waiting.left
  cases g.ticket <;> rfl

theorem Waiting.queued_left : (g.left q).Queued t ↔ q.Queued t ∧ g.ticket ≠ some t := by
  constructor
  · rintro ⟨w, hw, rfl⟩
    obtain ⟨hw, hg⟩ := mem_left.mp hw
    exact ⟨⟨w, hw, rfl⟩, hg⟩
  · rintro ⟨⟨w, hw, rfl⟩, hg⟩
    exact ⟨w, mem_left.mpr ⟨hw, hg⟩, rfl⟩

theorem Waiting.ringBroken_left : (g.left q).RingBroken t ↔ q.RingBroken t ∧ g.ticket ≠ some t := by
  unfold WaitQueue.RingBroken Waiting.left
  cases g.ticket with
  | none => simp
  | some =>
    constructor
    · rintro ⟨b, hb, rfl⟩
      obtain ⟨hb, hne⟩ := WaitQueue.mem_leave_broken.mp hb
      exact ⟨⟨b, hb, rfl⟩, fun heq => hne (Option.some.inj heq).symm⟩
    · rintro ⟨⟨b, hb, rfl⟩, hne⟩
      exact ⟨b, WaitQueue.mem_leave_broken.mpr ⟨hb, fun heq => hne (congrArg some heq.symm)⟩, rfl⟩

namespace State

/-- What every hold of the lease code keeps, and the events it sends out. -/
structure Moved (s s' : State) (more : List Event) : Prop where
  coordination : s'.coordination = s.coordination
  env : s'.env = s.env
  published : s'.published = s.published ++ more
  faults : s'.store.faults = s.store.faults
  latched : s.storageError ≠ none → s'.storageError ≠ none
  sound : (∀ n, s.store.faults n = none) → s.storageError = none → s'.storageError = none

/-- Nothing changes but the queue, the table and the count of requests. -/
theorem Moved.inMemory (s : State) (queue : WaitQueue) (leases : LeaseTable) (n : Nat) :
    Moved s { s with waiting := queue, leases := leases, inFlight := n } [] :=
  ⟨rfl, rfl, (List.append_nil _).symm, rfl, fun h => h, fun _ h => h⟩

theorem Moved.refl (s : State) : Moved s s [] := .inMemory ..

variable {kind : EventKind} {more more' : List Event} {kinds : List EventKind} {s s' s'' : State}
  {instants : Time → Prop}

theorem Moved.trans (h : Moved s s' more) (h' : Moved s' s'' more') :
    Moved s s'' (more ++ more') where
  coordination := h'.coordination.trans h.coordination
  env := h'.env.trans h.env
  published := by rw [h'.published, h.published, List.append_assoc]
  faults := h'.faults.trans h.faults
  latched hs := h'.latched (h.latched hs)
  sound hf hs := h'.sound (h.faults ▸ hf) (h.sound hf hs)

theorem Moved.fenced (h : Moved s s' more) : s'.fenced = s.fenced := by
  rw [State.fenced, State.fenced, h.coordination]

/-- What was said in the first part of a hold, or would have been. -/
theorem said_left {p : Event → Prop} (hlatched : s.storageError ≠ none → s'.storageError ≠ none)
    (h : s.storageError ≠ none ∨ ∃ e ∈ more, p e) :
    s'.storageError ≠ none ∨ ∃ e ∈ more ++ more', p e :=
  h.imp hlatched fun ⟨e, he, hp⟩ => ⟨e, List.mem_append_left _ he, hp⟩

theorem said_right {p : Event → Prop} (h : s.storageError ≠ none ∨ ∃ e ∈ more', p e) :
    s.storageError ≠ none ∨ ∃ e ∈ more ++ more', p e :=
  h.imp_right fun ⟨e, he, hp⟩ => ⟨e, List.mem_append_right _ he, hp⟩

theorem Untouched.moved (h : Untouched s s') : Moved s s' [] where
  coordination := h.coordination
  env := h.env
  published := by rw [h.published, List.append_nil]
  faults := h.faults
  latched herr := by rwa [h.latched herr]
  sound := h.sound

/-! ## Memory and the rows -/

/-- Memory has the leases of the durable rows, but for rows that had expired at
one of these instants when storage failed. -/
structure Mirrors (instants : Time → Prop) (s : State) : Prop where
  durable : ∀ l ∈ s.leases, l ∈ s.store.leases
  lost : ∀ l ∈ s.store.leases, l ∈ s.leases ∨
    (s.storageError ≠ none ∧ ∃ now, instants now ∧ l.isExpired now = true)

/-- A part of a hold after which memory mirrors the rows if it did before, its
own time, if it has one, being one of the instants. -/
def Mirroring (time : Option Time) (s s' : State) : Prop :=
  ∀ instants : Time → Prop, (∀ now ∈ time, instants now) → s.Mirrors instants → s'.Mirrors instants

theorem Mirrors.mem_iff (h : s.Mirrors instants) (hs : s.storageError = none) (l : Lease) :
    l ∈ s.leases ↔ l ∈ s.store.leases :=
  ⟨h.durable l, fun hl => (h.lost l hl).resolve_right fun herr => herr.1 hs⟩

theorem Mirrors.of_mem_iff (h : ∀ l, l ∈ s.leases ↔ l ∈ s.store.leases) : s.Mirrors instants :=
  ⟨fun l hl => (h l).mp hl, fun l hl => .inl ((h l).mpr hl)⟩

variable {time : Option Time}

theorem Mirroring.trans (h : Mirroring time s s') (h' : Mirroring time s' s'') :
    Mirroring time s s'' :=
  fun instants htime hs => h' instants htime (h instants htime hs)

/-- Neither memory nor the rows change. -/
theorem Mirroring.of_same (hl : ∀ l, l ∈ s'.leases ↔ l ∈ s.leases)
    (hr : s'.store.leases = s.store.leases) (hs : s.storageError ≠ none → s'.storageError ≠ none) :
    Mirroring time s s' := by
  intro instants _ h
  constructor
  · intro l hmem
    rw [hr]
    exact h.durable l ((hl l).mp hmem)
  · intro l hmem
    rw [hr] at hmem
    rw [hl]
    exact (h.lost l hmem).imp id fun ⟨herr, hexp⟩ => ⟨hs herr, hexp⟩

theorem Moved.mirroring (h : Moved s s' more) (hl : s'.leases = s.leases)
    (hr : s'.store.leases = s.store.leases) :
    Mirroring time s s' :=
  .of_same (by simp [hl]) hr h.latched

/-! ## Transitions -/

theorem transferring_eq_none : s.transferring = none ↔ s.fenced = false := by
  unfold transferring
  cases s.fenced with
  | true => exact ⟨by simp, by simp⟩
  | false => exact ⟨fun _ => rfl, fun _ => rfl⟩

theorem writeFailure_eq_none : s.writeFailure = none ↔
      s.storageError = none ∧ (s.skippedWrite = true → s.fenced = false) := by
  unfold writeFailure storageFailure
  cases herr : s.storageError with
  | some => simp
  | none =>
    cases hw : s.skippedWrite with
    | true => simp [transferring_eq_none]
    | false => simp

theorem landed_moved (s : State) (kinds : List EventKind) (write apply : LeaseTable → LeaseTable) :
    Moved s (s.landed kinds write apply) (s.numbered kinds) :=
  ⟨rfl, rfl, rfl, rfl, fun h => h, fun _ h => h⟩

/-- A write that lands and does to the rows what it does to memory. -/
theorem landed_mirroring (hl : s.lands = true) (kinds : List EventKind)
    {write apply : LeaseTable → LeaseTable} (h : (∀ l, l ∈ s.leases ↔ l ∈ s.store.leases) →
      ∀ l, l ∈ apply s.leases ↔ l ∈ write s.store.leases) :
    Mirroring time s (s.landed kinds write apply) :=
  fun _ _ hs => .of_mem_iff (h (hs.mem_iff (lands_iff.mp hl).1))

section Commit

variable (s : State) (what : String) (kinds : List EventKind)
    (write apply : LeaseTable → LeaseTable)

/-- The events a transition sends out. -/
def sent : List Event := if s.lands then s.numbered kinds else []

theorem commit_waiting : (s.commit what kinds write apply).1.waiting = s.waiting := by
  rcases commit_eq s what kinds write apply with ⟨-, h⟩ | ⟨-, h, -⟩
  · rw [h]; rfl
  · rw [h]; exact (refused_untouched s what).waiting

theorem commit_leases : (s.commit what kinds write apply).1.leases =
      if s.lands then apply s.leases else s.leases := by
  rcases commit_eq s what kinds write apply with ⟨hl, h⟩ | ⟨hl, h, -⟩
  · rw [h, if_pos hl]; rfl
  · rw [h, hl]; exact (refused_untouched s what).leases

theorem commit_rows : (s.commit what kinds write apply).1.store.leases =
      if s.lands then write s.store.leases else s.store.leases := by
  rcases commit_eq s what kinds write apply with ⟨hl, h⟩ | ⟨hl, h, -⟩
  · rw [h, if_pos hl]; rfl
  · rw [h, hl]; exact (refused_untouched s what).rows

theorem commit_mirroring (h : (∀ l, l ∈ s.leases ↔ l ∈ s.store.leases) →
    ∀ l, l ∈ apply s.leases ↔ l ∈ write s.store.leases) :
    Mirroring time s (s.commit what kinds write apply).1 := by
  rcases commit_eq s what kinds write apply with ⟨hl, hc⟩ | ⟨-, hc, -⟩
  · rw [hc]
    exact landed_mirroring hl kinds h
  · rw [hc]
    have hu := refused_untouched s what
    exact hu.moved.mirroring hu.leases hu.rows

theorem commit_committed : (s.commit what kinds write apply).2 = .committed ↔ s.lands = true := by
  rcases commit_eq s what kinds write apply with ⟨hl, h⟩ | ⟨hl, -, h⟩
  · simp [hl, h]
  · simp [hl, h]

/-- A write that does not land where no fence is up is a storage failure. -/
theorem commit_failed (hf : s.fenced = false) (hl : s.lands = false) :
    (s.commit what kinds write apply).1.storageError ≠ none := by
  rcases commit_eq s what kinds write apply with ⟨h, -⟩ | ⟨-, h, -⟩
  · rw [hl] at h
    cases h
  · rw [h]
    unfold refused
    cases herr : s.storageError with
    | some => simp [herr]
    | none =>
      cases hd : s.store.faults s.store.uses with
      | some => simp [hf]
      | none => simp [lands, herr, hf, hd] at hl

/-- The write failure a hold reports is that of its last transition. -/
theorem commit_writeFailure :
    (s.commit what kinds write apply).1.writeFailure = none ↔ s.lands = true := by
  rw [writeFailure_eq_none]
  rcases commit_eq s what kinds write apply with ⟨hl, h⟩ | ⟨hl, h, -⟩
  · rw [h, hl]
    simp [landed, (lands_iff.mp hl).1]
  · rw [h, hl]
    unfold refused
    cases herr : s.storageError with
    | some => simp [herr]
    | none =>
      cases hf : s.fenced with
      | true =>
        simp only [Option.isSome_none, Bool.false_eq_true, if_false, if_true, iff_false,
          not_and, Classical.not_imp]
        exact fun _ => ⟨trivial, fun h => Bool.noConfusion (hf.symm.trans h)⟩
      | false =>
        cases hd : s.store.faults s.store.uses with
        | some => simp
        | none => simp [lands, herr, hf, hd] at hl

theorem commit_moved : Moved s (s.commit what kinds write apply).1 (s.sent kinds) := by
  unfold sent
  rcases commit_eq s what kinds write apply with ⟨hl, h⟩ | ⟨hl, h, -⟩
  · rw [h, if_pos hl]
    exact landed_moved ..
  · rw [h, hl]
    have hu := refused_untouched s what
    exact hu.moved

end Commit

section

variable (s : State) (kind : EventKind)

theorem emit_leases : (s.emit kind).leases = s.leases := by
  rw [emit, commit_leases]
  split <;> rfl

theorem emit_rows : (s.emit kind).store.leases = s.store.leases := by
  rw [emit, commit_rows]
  split <;> rfl

theorem emit_waiting : (s.emit kind).waiting = s.waiting :=
  commit_waiting ..

theorem emit_moved : Moved s (s.emit kind) (s.sent [kind]) :=
  commit_moved ..

end

theorem mem_sent {e : Event} (h : e ∈ s.sent kinds) :
    e.kind ∈ kinds := by
  unfold sent at h
  split at h
  · obtain ⟨⟨_, _⟩, hmem, rfl⟩ := List.mem_map.mp h
    exact (List.mem_zipIdx hmem).2.2 ▸ List.getElem_mem _
  · cases h

theorem exists_sent (hl : s.lands = true) (hkind : kind ∈ kinds) :
    ∃ e ∈ s.sent kinds, e.kind = kind := by
  obtain ⟨i, hi, rfl⟩ := List.mem_iff_getElem.mp hkind
  refine ⟨⟨s.nextSeq + i, kinds[i]⟩, ?_, rfl⟩
  rw [sent, if_pos hl]
  refine List.mem_map.mpr ⟨(kinds[i], i), ?_, rfl⟩
  exact List.mem_zipIdx_iff_getElem?.mpr (List.getElem?_eq_getElem hi)

/-- Where a write lands its event goes out; where it does not and no fence is
up, storage has failed. -/
theorem sent_or_failed {what : String} {write apply : LeaseTable → LeaseTable}
    (hf : s.fenced = false) (hkind : kind ∈ kinds) :
    (s.commit what kinds write apply).1.storageError ≠ none ∨
      ∃ e ∈ s.sent kinds, e.kind = kind := by
  by_cases hl : s.lands = true
  · exact .inr (exists_sent hl hkind)
  · exact .inl (commit_failed s what kinds write apply hf (by simpa using hl))

theorem sent_quiet (h : ∀ kind ∈ kinds, ∀ ticket, kind.ends ticket = none) : Quiet (s.sent kinds) :=
  fun _ he => h _ (mem_sent he)

/-- Storage that never fails, and no fence. -/
structure Healthy (s : State) : Prop where
  faultless : ∀ n, s.store.faults n = none
  sound : s.storageError = none
  unfenced : s.fenced = false

theorem Healthy.lands (h : s.Healthy) : s.lands = true :=
  lands_iff.mpr ⟨h.sound, h.unfenced, h.faultless _⟩

theorem Moved.healthy (h : Moved s s' more) (hs : s.Healthy) : s'.Healthy :=
  ⟨h.faults ▸ hs.faultless, h.sound hs.faultless hs.sound, h.fenced.trans hs.unfenced⟩

theorem endings_sent {ticket : Nat} :
    endings (s.sent kinds) ticket =
      if s.lands then kinds.filterMap (·.ends ticket) else [] := by
  unfold sent
  split
  · have h : ∀ (kinds : List EventKind) (k : Nat),
        (kinds.zipIdx k).filterMap (fun p => p.1.ends ticket) =
          kinds.filterMap (·.ends ticket) := by
      intro kinds
      induction kinds with
      | nil => intro k; rfl
      | cons _ _ ih =>
        intro k
        rw [List.zipIdx_cons, List.filterMap_cons, List.filterMap_cons, ih]
    rw [endings, numbered, List.filterMap_map]
    exact h kinds 0
  · rfl

/-! ## Time passing -/

/-- A part of a hold in which the leases expired at its time, if it has one, may
go, each with its event, and nobody's place changes. -/
structure Passed (time : Option Time) (s s' : State) (more : List Event) : Prop
    extends Moved s s' more where
  waiting : s'.waiting = s.waiting
  kept : ∀ l ∈ s'.leases, l ∈ s.leases
  unexpired : ∀ l ∈ s.leases, (∀ now ∈ time, l.isExpired now = false) → l ∈ s'.leases
  mirrors : Mirroring time s s'
  quiet : Quiet more
  said : ∀ l ∈ s.leases, l ∈ s'.leases ∨ s'.storageError ≠ none ∨
    ∃ e ∈ more, e.kind = .leaseExpired l

theorem Passed.of_leases_eq (h : Moved s s' more) (hw : s'.waiting = s.waiting)
    (hl : s'.leases = s.leases) (hr : s'.store.leases = s.store.leases) (hq : Quiet more) :
    Passed time s s' more :=
  ⟨h, hw, fun _ h => hl ▸ h, fun _ h _ => hl ▸ h, h.mirroring hl hr, hq, fun _ h => .inl (hl ▸ h)⟩

theorem Passed.refl (time : Option Time) (s : State) : Passed time s s [] :=
  .of_leases_eq (.refl s) rfl rfl rfl (by simp [Quiet])

theorem Passed.trans (h : Passed time s s' more) (h' : Passed time s' s'' more') :
    Passed time s s'' (more ++ more') where
  toMoved := h.toMoved.trans h'.toMoved
  waiting := h'.waiting.trans h.waiting
  kept l hl := h.kept l (h'.kept l hl)
  unexpired l hl hl' := h'.unexpired l (h.unexpired l hl hl') hl'
  mirrors := h.mirrors.trans h'.mirrors
  quiet := h.quiet.append h'.quiet
  said l hl := by
    rcases h.said l hl with hl' | hsaid
    · exact (h'.said l hl').imp_right said_right
    · exact .inr (said_left h'.latched hsaid)

theorem Untouched.passed (h : Untouched s s') : Passed time s s' [] :=
  .of_leases_eq h.moved h.waiting h.leases h.rows (by simp [Quiet])

theorem persist_passed {what : String} : Passed time s (s.persist what id).1 [] := by
  rcases hp : s.persist what id with ⟨_, p⟩
  by_cases hc : p = .committed
  · rw [hc] at hp
    rw [persist_committed hp]
    exact (Untouched.of_healthy s _ _).passed
  · exact (persist_not_committed hp hc).passed

theorem storeRead_passed {α : Type} (s : State) (what : String) (read : Store → α) :
    Passed time s (s.storeRead what fun store => (store, read store)).1 [] :=
  (storeRead_untouched s what read).passed

theorem touch_passed (s : State) (agent : AgentId) : Passed time s (s.touch agent) [] := by
  unfold touch
  split
  · exact persist_passed
  · exact .refl time s

theorem commit_id_passed (s : State) (what : String)
    (h : ∀ kind ∈ kinds, ∀ ticket, kind.ends ticket = none) :
    Passed time s (s.commit what kinds id id).1 (s.sent kinds) := by
  refine .of_leases_eq (commit_moved ..) (commit_waiting ..) ?_ ?_ (sent_quiet h)
  · rw [commit_leases]
    split <;> rfl
  · rw [commit_rows]
    split <;> rfl

/-- The writes that follow an expiry: memory has let the leases go already, and
their rows go one by one, each with its event, until storage fails. -/
structure Removed (expired : List Lease) (s s' : State) (more : List Event) : Prop
    extends Moved s s' more where
  waiting : s'.waiting = s.waiting
  leases : s'.leases = s.leases
  quiet : Quiet more
  said : ∀ l ∈ expired, s'.storageError ≠ none ∨ ∃ e ∈ more, e.kind = .leaseExpired l
  rows : ∀ l ∈ s'.store.leases, l ∈ s.store.leases
  kept : ∀ l ∈ s.store.leases, (∀ k ∈ expired, k.id ≠ l.id) → l ∈ s'.store.leases
  gone : s'.storageError = none → ∀ l ∈ s'.store.leases, ∀ k ∈ expired, k.id ≠ l.id

theorem persistLeaseRemoval_removed (l : Lease) (s : State) (hf : s.fenced = false) :
    Removed [l] s (s.persistLeaseRemoval l true) (s.sent [.leaseExpired l]) := by
  have hrows : (s.persistLeaseRemoval l true).store.leases =
      if s.lands then s.store.leases.erase l.id else s.store.leases := commit_rows ..
  refine ⟨commit_moved .., commit_waiting .., ?_, sent_quiet (by simp [EventKind.ends]),
    fun k hk => ?_, fun k hk => ?_, fun k hk hne => ?_, fun hs k hk => ?_⟩
  · refine (commit_leases ..).trans ?_
    split <;> rfl
  · rw [List.mem_singleton.mp hk]
    exact sent_or_failed hf (List.mem_singleton_self _)
  · rw [hrows] at hk
    split at hk
    · exact (mem_erase.mp hk).1
    · exact hk
  · rw [hrows]
    split
    · exact mem_erase.mpr ⟨hk, (hne l (List.mem_singleton_self l)).symm⟩
    · exact hk
  · by_cases hl : s.lands = true
    · rw [hrows, if_pos hl] at hk
      simpa using (mem_erase.mp hk).2.symm
    · exact absurd hs (commit_failed s _ _ _ _ hf (by simpa using hl))

theorem foldl_persistLeaseRemoval (expired : List Lease) (s : State) (hf : s.fenced = false) :
    ∃ more, Removed expired s (expired.foldl (·.persistLeaseRemoval · true) s) more := by
  induction expired generalizing s with
  | nil =>
    exact ⟨[], .refl s, rfl, rfl, by simp [Quiet], by simp, fun _ hl => hl,
      fun _ hl _ => hl, by simp⟩
  | cons l _ ih =>
    have hone := persistLeaseRemoval_removed l s hf
    obtain ⟨_, hrest⟩ := ih (s.persistLeaseRemoval l true) (hone.fenced.trans hf)
    refine ⟨_, hone.toMoved.trans hrest.toMoved, hrest.waiting.trans hone.waiting,
      hrest.leases.trans hone.leases, hone.quiet.append hrest.quiet, fun k hk => ?_,
      fun k hk => hone.rows k (hrest.rows k hk), fun k hk hne => ?_, fun hs k hk => ?_⟩
    · rcases List.mem_cons.mp hk with rfl | hk
      · exact said_left hrest.latched (hone.said k (List.mem_singleton_self k))
      · exact said_right (hrest.said k hk)
    · refine hrest.kept k (hone.kept k hk ?_) fun m hm => hne m (List.mem_cons_of_mem _ hm)
      simpa using hne l List.mem_cons_self
    · have hs₁ : (s.persistLeaseRemoval l true).storageError = none := by
        by_contra herr
        exact hrest.latched herr hs
      intro m hm
      rcases List.mem_cons.mp hm with rfl | hm
      · exact hone.gone hs₁ k (hrest.rows k hk) m (List.mem_singleton_self m)
      · exact hrest.gone hs k hk m hm

theorem expireLeasesAt_passed (s : State) (now : Time) :
    ∃ more, Passed (some now) s (s.expireLeasesAt now) more := by
  unfold expireLeasesAt
  split
  · exact ⟨[], .refl _ s⟩
  next hf =>
  obtain ⟨more, h⟩ := foldl_persistLeaseRemoval (s.leases.expire now).2
    { s with leases := (s.leases.expire now).1 } (Bool.eq_false_iff.mpr hf)
  have hlive : ∀ l, l ∈ (s.leases.expire now).1 ↔ l ∈ s.leases ∧ l.isExpired now = false := by
    intro l
    rw [LeaseTable.expire, mem_filter, Bool.not_eq_true']
  have hdead : ∀ l, l ∈ (s.leases.expire now).2 ↔ l ∈ s.leases ∧ l.isExpired now = true :=
    fun l => List.mem_filter
  refine ⟨more, { h.toMoved with }, h.waiting, fun l hl => ?_, fun l hl hl' => ?_,
    fun instants htime hs => ⟨?_, ?_⟩, h.quiet, fun l hl => ?_⟩
  · rw [h.leases] at hl
    exact ((hlive l).mp hl).1
  · rw [h.leases]
    exact (hlive l).mpr ⟨hl, hl' now rfl⟩
  · intro l hl
    rw [h.leases] at hl
    obtain ⟨hmem, hexp⟩ := (hlive l).mp hl
    refine h.kept l (hs.durable l hmem) fun k hk heq => ?_
    obtain ⟨hk, hkexp⟩ := (hdead k).mp hk
    rw [eq_of_key_eq hk hmem heq, hexp] at hkexp
    cases hkexp
  · intro l hl
    rw [h.leases]
    rcases hs.lost l (h.rows l hl) with hmem | ⟨herr, hexp⟩
    · cases hexp : l.isExpired now with
      | false => exact .inl ((hlive l).mpr ⟨hmem, hexp⟩)
      | true =>
        refine .inr ⟨fun hnone => ?_, now, htime now rfl, hexp⟩
        exact h.gone hnone l hl l ((hdead l).mpr ⟨hmem, hexp⟩) rfl
    · exact .inr ⟨h.latched herr, hexp⟩
  · rw [h.leases]
    cases hexp : l.isExpired now with
    | true => exact .inr (h.said l ((hdead l).mpr ⟨hl, hexp⟩))
    | false => exact .inl ((hlive l).mpr ⟨hl, hexp⟩)

/-! ## Rings broken -/

/-- A part of a hold in which the waits `ended` are ended to break rings, each
with its event, and nothing else anybody waits for changes. -/
structure RingsBroken (s s' : State) (ended : List Waiter) (more : List Event) : Prop
    extends Moved s s' more where
  leases : s'.leases = s.leases
  rows : s'.store.leases = s.store.leases
  nextTicket : s'.waiting.nextTicket = s.waiting.nextTicket
  queued : ∀ w, w ∈ s'.waiting.waiters ↔ w ∈ s.waiting.waiters ∧ w ∉ ended
  victims : ∀ w ∈ ended, w ∈ s.waiting.waiters
  broken : ∀ t, s'.waiting.RingBroken t ↔ s.waiting.RingBroken t ∨ ∃ w ∈ ended, w.ticket = t
  said : s.fenced = false → ∀ w ∈ ended, s'.storageError ≠ none ∨
    ∃ e ∈ more, e.kind = .leaseWaitEnded w.resource w.agent .deadlock (some w.ticket)
  endings : s.Healthy → ∀ t, endings more t = if ∃ w ∈ ended, w.ticket = t then [.deadlock] else []

theorem RingsBroken.refl (s : State) : RingsBroken s s [] [] where
  toMoved := .refl s
  leases := rfl
  rows := rfl
  nextTicket := rfl
  queued := by simp
  victims := by simp
  broken := by simp
  said := by simp
  endings := by simp [Daemon.endings]

theorem RingsBroken.trans {ended ended' : List Waiter} (h : RingsBroken s s' ended more)
    (h' : RingsBroken s' s'' ended' more') :
    RingsBroken s s'' (ended ++ ended') (more ++ more') where
  toMoved := h.toMoved.trans h'.toMoved
  leases := h'.leases.trans h.leases
  rows := h'.rows.trans h.rows
  nextTicket := h'.nextTicket.trans h.nextTicket
  queued w := by rw [h'.queued, h.queued, List.mem_append, not_or, and_assoc]
  victims w hw := (List.mem_append.mp hw).elim (h.victims w)
    fun hw => ((h.queued w).mp (h'.victims w hw)).1
  broken t := by
    rw [h'.broken, h.broken, or_assoc]
    simp only [List.mem_append, or_and_right, exists_or]
  said hf w hw := by
    rcases List.mem_append.mp hw with hw | hw
    · exact said_left h'.latched (h.said hf w hw)
    · exact said_right (h'.said (h.fenced.trans hf) w hw)
  endings hs t := by
    rw [endings_append, h.endings hs, h'.endings (h.healthy hs)]
    -- A wait ended later was still queued after the first endings, so no
    -- ticket is among both.
    have hboth : (∃ w ∈ ended, w.ticket = t) → ¬ ∃ w ∈ ended', w.ticket = t := by
      rintro ⟨w, hw, rfl⟩ ⟨v, hv, heq⟩
      obtain ⟨hv, hnot⟩ := (h.queued v).mp (h'.victims v hv)
      exact hnot (eq_of_key_eq hv (h.victims w hw) heq ▸ hw)
    simp only [List.mem_append, or_and_right, exists_or]
    by_cases h₁ : ∃ w ∈ ended, w.ticket = t
    · simp [h₁, hboth h₁]
    · simp [h₁]

/-- Saying something that ends no wait breaks no ring. -/
theorem RingsBroken.of_emit (s : State) (kind : EventKind) (h : ∀ ticket, kind.ends ticket = none) :
    RingsBroken s (s.emit kind) [] (s.sent [kind]) where
  toMoved := emit_moved s kind
  leases := emit_leases s kind
  rows := emit_rows s kind
  nextTicket := by rw [emit_waiting]
  queued := by simp [emit_waiting]
  victims := by simp
  broken := by simp [emit_waiting]
  said := by simp
  endings _ t := by
    rw [(sent_quiet (by simpa using h)).endings]
    simp

/-- One wait ended, and the two events of it. -/
theorem ringsBroken_one {w : Waiter} (hw : w ∈ s.waiting.waiters) (cycle : List Blocked)
    (victim : Option Blocked) :
    ∃ more, RingsBroken s
      ((State.emit { s with waiting := (s.waiting.breakRing w.ticket cycle).1 }
        (.leaseDeadlock cycle victim)).emit
          (.leaseWaitEnded w.resource w.agent .deadlock (some w.ticket))) [w] more := by
  obtain ⟨-, hwaiters, hbroken, hnext⟩ :=
    WaitQueue.breakRing_some cycle (get?_eq_some.mpr ⟨hw, rfl⟩)
  let s₁ : State := { s with waiting := (s.waiting.breakRing w.ticket cycle).1 }
  let s₂ := s₁.emit (.leaseDeadlock cycle victim)
  let said : EventKind := .leaseWaitEnded w.resource w.agent .deadlock (some w.ticket)
  have h₁ : Moved s s₁ [] := .inMemory ..
  have h₂ : Moved s s₂ (s₁.sent [.leaseDeadlock cycle victim]) := h₁.trans (emit_moved ..)
  refine ⟨_, h₂.trans (emit_moved s₂ said), ?_, ?_, ?_, ?_, ?_, ?_, ?_, ?_⟩
  · rw [emit_leases, emit_leases]
  · rw [emit_rows, emit_rows]
  · rw [emit_waiting, emit_waiting]
    exact hnext
  · intro v
    rw [emit_waiting, emit_waiting]
    rw [hwaiters, mem_erase, List.mem_singleton, and_congr_right_iff]
    intro hv
    rw [not_iff_not]
    exact ⟨eq_of_key_eq hv hw, congrArg _⟩
  · intro v hv
    rw [List.mem_singleton.mp hv]
    exact hw
  · intro t
    rw [emit_waiting, emit_waiting]
    show (∃ b ∈ (s.waiting.breakRing w.ticket cycle).1.broken, b.1 = t) ↔ _
    rw [hbroken, exists_insert]
    simp [WaitQueue.RingBroken]
  · intro hf v hv
    rw [List.mem_singleton.mp hv]
    exact said_right (sent_or_failed (h₂.fenced.trans hf)
      (List.mem_singleton_self _))
  · intro hs t
    rw [endings_append, endings_sent, endings_sent, if_pos (h₁.healthy hs).lands,
      if_pos (h₂.healthy hs).lands]
    by_cases ht : w.ticket = t <;> simp [EventKind.ends, said, ht]

/-- A queue of `n` waiters leaves no more than `n` waits to end, so the passes
stop at a ring broken at the newcomer or at no ring. -/
theorem breakRingsPass_spec (requester : AgentId) (resource : ResourceKey) (priority : Int)
    (n : Nat) (s : State) (hn : s.waiting.waiters.rows.length < n) :
    ∃ ended more, RingsBroken s (breakRingsPass requester resource priority n s).1 ended more ∧
      ((breakRingsPass requester resource priority n s).2 = none →
        (breakRingsPass requester resource priority n s).1.deadlock requester resource = none) := by
  induction n generalizing s with
  | zero => omega
  | succ n ih =>
    rw [breakRingsPass]
    cases hd : s.deadlock requester resource with
    | none => exact ⟨[], [], .refl s, fun _ => hd⟩
    | some cycle =>
      dsimp only
      cases hv : (victim cycle priority s.waiting.all).ticket with
      | none =>
        have hsaid := RingsBroken.of_emit s (.leaseDeadlock cycle cycle[0]?)
          fun _ => rfl
        exact ⟨[], _, hsaid, by simp⟩
      | some =>
        obtain ⟨w, hw, rfl⟩ := victim_mem hv
        have hget := get?_eq_some.mpr ⟨hw, rfl⟩
        obtain ⟨hended, hwaiters, -, -⟩ :=
          WaitQueue.breakRing_some cycle hget
        obtain ⟨_, hone⟩ := ringsBroken_one hw cycle
          cycle[(victim cycle priority s.waiting.all).step]?
        rcases hr : s.waiting.breakRing w.ticket cycle with ⟨queue, ended⟩
        rw [hr] at hended hwaiters hone
        cases hended
        simp only [hr]
        -- One waiter fewer, so the fuel that is left still covers the queue.
        have hlt : (s.waiting.waiters.erase w.ticket).rows.length < s.waiting.waiters.rows.length :=
          List.length_filter_lt_length_iff_exists.mpr ⟨w, hw, by simp⟩
        have hlen : ((State.emit { s with waiting := queue } (.leaseDeadlock cycle
            cycle[(victim cycle priority s.waiting.all).step]?)).emit
              (.leaseWaitEnded w.resource w.agent .deadlock
                (some w.ticket))).waiting.waiters.rows.length < n := by
          rw [emit_waiting, emit_waiting, hwaiters]
          omega
        obtain ⟨_, _, hrest, hclear⟩ := ih _ hlen
        exact ⟨_, _, hone.trans hrest, hclear⟩

theorem breakRings_spec (s : State) (requester : AgentId) (resource : ResourceKey) (priority : Int)
    {found : Option (List Blocked)} (h : s.breakRings requester resource priority = (s', found)) :
    ∃ ended more, RingsBroken s s' ended more ∧
      (found = none → s'.deadlock requester resource = none) := by
  have hspec := breakRingsPass_spec requester resource priority
    (s.waiting.all.length + 1) s (Nat.lt_succ_self _)
  rw [breakRings] at h
  rwa [h] at hspec

/-! ## A place given up -/

/-- A guard gives its place up, if it has one: a wait that is still queued is
said to end, one that a ring was broken at was said to end before. -/
structure Ended (g : Waiting) (s s' : State) (outcome : WaitOutcome) (more : List Event) :
    Prop extends Moved s s' more where
  leases : s'.leases = s.leases
  rows : s'.store.leases = s.store.leases
  waiting : s'.waiting = g.left s.waiting
  said : s.fenced = false → ∀ t, g.ticket = some t → s.waiting.Queued t → s'.storageError ≠ none ∨
      ∃ e ∈ more, e.kind = .leaseWaitEnded g.resource g.requester outcome (some t)
  endings : ∀ t, endings more t =
    if s.lands ∧ g.ticket = some t ∧ s.waiting.Queued t then [outcome] else []

theorem endLocked_spec (g : Waiting) (s : State) (outcome : WaitOutcome) :
    (g.endLocked s outcome).2 = { g with ticket := none } ∧
      ∃ more, Ended g s (g.endLocked s outcome).1 outcome more := by
  unfold Waiting.endLocked
  cases hg : g.ticket with
  | none =>
    refine ⟨?_, [], .refl s, rfl, rfl, ?_, fun _ t ht => ?_, fun t => ?_⟩
    · show g = { g with ticket := none }
      rw [← hg]
    · rw [Waiting.left, hg]
    · rw [hg] at ht
      cases ht
    · simp [Daemon.endings, hg]
  | some ticket =>
    dsimp only
    have hleft : g.left s.waiting = (s.waiting.leave ticket).1 := by rw [Waiting.left, hg]
    rcases hl : s.waiting.leave ticket with ⟨queue, _ | w⟩
    · have hq : ¬ s.waiting.Queued ticket := by
        rintro ⟨w, hw, rfl⟩
        exact get?_eq_none.mp (congrArg Prod.snd hl) w hw rfl
      refine ⟨rfl, [], .inMemory .., rfl, rfl, ?_, fun _ t ht hqt => ?_, fun t => ?_⟩
      · rw [hleft, hl]
      · rw [hg] at ht
        cases ht
        exact absurd hqt hq
      · rw [if_neg]
        · rfl
        · rintro ⟨-, ht, hqt⟩
          rw [hg] at ht
          cases ht
          exact hq hqt
    · have hq : s.waiting.Queued ticket := ⟨w, get?_eq_some.mp (congrArg Prod.snd hl)⟩
      let s₁ : State := { s with waiting := queue }
      let said : EventKind := .leaseWaitEnded g.resource g.requester outcome (some ticket)
      have h₁ : Moved s s₁ [] := .inMemory ..
      refine ⟨rfl, _, h₁.trans (emit_moved s₁ said), emit_leases .., emit_rows .., ?_,
        fun hf t ht _ => ?_, fun t => ?_⟩
      · rw [hleft, hl]
        exact emit_waiting ..
      · rw [hg] at ht
        cases ht
        exact sent_or_failed hf (List.mem_singleton_self _)
      · have hlands : s₁.lands = s.lands := rfl
        rw [List.nil_append, endings_sent, hlands, hg]
        by_cases ht : ticket = t
        · subst ht
          simp [EventKind.ends, said, hq]
        · simp [EventKind.ends, said, ht]

end State

end Daemon

end AgentDocker
