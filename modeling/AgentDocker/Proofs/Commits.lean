import AgentDocker.Daemon.Commits

/-!
# The event log has no holes

A number is given before the write and used up only when the write landed, so a
daemon's next number is at most one above the last that is stored. A write that
starts there extends the log by one number after the other. One that starts below
names a number that is taken and is refused by the table: that is what becomes of a
successor whose predecessor wrote after it had looked, and nothing it does can
repeat a number or leave one out.

`Moves` says once what a call may do, and the invariants of a whole run are read off
it. That storage has failed is noted by a daemon that serves, and it serves from
then on without writing: it offers nothing, so there is nothing to readdress or to
abort.
-/

namespace AgentDocker.Daemon

open AgentDocker.Core Lib Keyed

/-! ## Numbers -/

namespace Session

@[simp] theorem length_numberFrom {first : Nat} {kinds : List EventKind} :
    (numberFrom first kinds).length = kinds.length := by
  rw [numberFrom, List.length_map, List.length_zipIdx]

theorem numberFrom_cons {first : Nat} {kind : EventKind} {kinds : List EventKind} :
    numberFrom first (kind :: kinds) = ⟨first, kind⟩ :: numberFrom (first + 1) kinds := by
  rw [numberFrom, numberFrom, List.zipIdx_cons', List.map_cons, List.map_map]
  refine congrArg₂ List.cons rfl (List.map_congr_left fun p _ => ?_)
  show (⟨first + (p.2 + 1), p.1⟩ : Event) = ⟨first + 1 + p.2, p.1⟩
  rw [Nat.add_comm p.2 1, Nat.add_assoc]

end Session

namespace Database

variable {R A : Type} {db db' : Database R} {start : Nat}

/-- The events are numbered one after the other, and the last number is the highest. -/
structure Numbered (start : Nat) (db : Database R) : Prop where
  events : db.events.map Event.seq = List.range' (start + 1) db.events.length
  sequence : db.sequence = start + db.events.length

variable {done : Bool} {event : Event}

theorem appendEvent_ok (h : db.appendEvent event = .ok db') : event.seq ∉ db.events.map Event.seq ∧
      db' = { db with events := db.events ++ [event], sequence := max db.sequence event.seq } := by
  rw [appendEvent] at h
  split at h
  · cases h
  split at h
  · cases h
  next hfresh =>
  cases h
  exact ⟨hfresh, rfl⟩

/-- The number is the next one, as every lower one is taken. -/
theorem Numbered.appendEvent (hdb : db.Numbered start) (hlow : start < event.seq)
    (hhigh : event.seq ≤ db.sequence + 1) (h : db.appendEvent event = .ok db') :
    event.seq = db.sequence + 1 ∧ db'.sequence = db.sequence + 1 ∧ db'.Numbered start := by
  obtain ⟨hfresh, hdb'⟩ := appendEvent_ok h
  have hsequence := hdb.sequence
  rw [hdb.events, List.mem_range'_1] at hfresh
  have hseq : event.seq = db.sequence + 1 := by omega
  have hmax : max db.sequence event.seq = db.sequence + 1 := by omega
  refine ⟨hseq, by rw [hdb', hmax], ?_, ?_⟩
  · rw [hdb', List.map_append, hdb.events, List.length_append, List.length_singleton,
      List.range'_concat, Nat.one_mul, List.map_singleton, hseq, hsequence]
    congr 2
    omega
  · rw [hdb', hmax, List.length_append, List.length_singleton]
    show db.sequence + 1 = start + (db.events.length + 1)
    omega

theorem appendEvents_ok {events : List Event} (h : db.appendEvents events = .ok db') :
    db'.events = db.events ++ events ∧ db'.transfer = db.transfer ∧ db'.rows = db.rows := by
  induction events generalizing db with
  | nil =>
    cases h
    exact ⟨(List.append_nil _).symm, rfl, rfl⟩
  | cons _ _ ih =>
    rw [appendEvents, List.foldlM_cons, bind_eq_ok] at h
    obtain ⟨_, hone, hrest⟩ := h
    obtain ⟨hevents, htransfer, hrows⟩ := ih hrest
    obtain ⟨_, hdb₁⟩ := appendEvent_ok hone
    rw [hevents, htransfer, hrows, hdb₁]
    exact ⟨by rw [List.append_assoc, List.singleton_append], rfl, rfl⟩

theorem Numbered.appendEvents (hdb : db.Numbered start) {first : Nat} {kinds : List EventKind}
    (hlow : start < first) (hhigh : first ≤ db.sequence + 1)
    (h : db.appendEvents (Session.numberFrom first kinds) = .ok db') :
    db'.Numbered start ∧ db.sequence ≤ db'.sequence ∧ first + kinds.length ≤ db'.sequence + 1 := by
  induction kinds generalizing db first with
  | nil =>
    cases h
    exact ⟨hdb, Nat.le_refl _, hhigh⟩
  | cons _ _ ih =>
    rw [Session.numberFrom_cons, Database.appendEvents, List.foldlM_cons, bind_eq_ok] at h
    obtain ⟨_, hone, hrest⟩ := h
    obtain ⟨_, _, hdb₁⟩ := hdb.appendEvent hlow hhigh hone
    obtain ⟨hdb', _, _⟩ := ih hdb₁ (by omega) (by omega) hrest
    refine ⟨hdb', by omega, ?_⟩
    rw [List.length_cons]
    omega

/-! ## Transactions -/

theorem transact_cases (disk : Option String) (op : Database R → Except String (Database R × A)) :
    (∃ err, db.transact disk op = (db, .error err)) ∨
      ∃ db' a, disk = none ∧ op db = .ok (db', a) ∧ db.transact disk op = (db', .ok a) := by
  rw [transact.eq_def]
  cases disk with
  | some err => exact .inl ⟨err, rfl⟩
  | none =>
    cases hop : op db with
    | error err => exact .inl ⟨err, rfl⟩
    | ok r => exact .inr ⟨r.1, r.2, rfl, rfl, rfl⟩

/-- The transfer is the one the database is in the middle of. -/
def Pending (db : Database R) (id : String) : Prop := db.pendingTransfer.map Transfer.id = some id

variable {id : String}

theorem pending_iff :
    db.Pending id ↔ ∃ t, db.transfer = some t ∧ t.state = .offered ∧ t.id = id := by
  rw [Pending, pendingTransfer]
  cases db.transfer with
  | none => simp
  | some t => by_cases h : t.state = .offered <;> simp [Option.filter, h]

variable {transfer : Transfer}

theorem recordTransfer_ok (h : db.recordTransfer transfer event = .ok (db', done)) :
    done = true ∧ { db with transfer := some transfer }.appendEvent event = .ok db' := by
  simp only [recordTransfer, bind_eq_ok, pure_eq_ok, Prod.mk.injEq] at h
  obtain ⟨_, hdb₁, rfl, hdone⟩ := h
  exact ⟨hdone.symm, hdb₁⟩

/-- What a write of the handover does: nothing, or the row and its event. -/
inductive Settles (ids : List String) (event : Event) (db db' : Database R) : Bool → Prop
  | refused (h : db' = db) : Settles ids event db db' false
  | recorded (transfer : Transfer) (hids : transfer.state = .offered →
        transfer.id ∈ ids ∨ db.Pending transfer.id)
      (h : { db with transfer := some transfer }.appendEvent event = .ok db') :
      Settles ids event db db' true

theorem recordTransfer_settles {ids : List String}
    (hids : transfer.state = .offered → transfer.id ∈ ids ∨ db.Pending transfer.id)
    (h : db.recordTransfer transfer event = .ok (db', done)) : Settles ids event db db' done := by
  obtain ⟨rfl, happend⟩ := recordTransfer_ok h
  exact .recorded transfer hids happend

theorem offerTransfer_settles (h : offerTransfer transfer event db = .ok (db', done)) :
    Settles [transfer.id] event db db' done := by
  rw [offerTransfer] at h
  split at h
  · split at h
    · cases h
      exact .refused rfl
    · exact recordTransfer_settles (fun _ => .inl List.mem_cons_self) h
  · exact recordTransfer_settles (fun _ => .inl List.mem_cons_self) h

theorem readdressTransfer_settles {successorPid : Nat}
    (h : readdressTransfer id successorPid event db = .ok (db', done)) :
    Settles [] event db db' done := by
  rw [readdressTransfer] at h
  split at h
  · cases h
    exact .refused rfl
  next current hcurrent =>
  split at h
  · cases h
    exact .refused rfl
  · refine recordTransfer_settles (fun hoffered => .inr ?_) h
    exact pending_iff.mpr ⟨current, hcurrent, hoffered, rfl⟩

/-- A transfer that is settled is not offered any more. -/
theorem settleTransfer_settles {successorPid : Option Nat} {outcome : TransferState}
    (houtcome : outcome ≠ .offered)
    (h : settleTransfer id successorPid outcome event db = .ok (db', done)) :
    Settles [] event db db' done ∧
      (done = true → db.Pending id ∧ ∀ other, ¬ db'.Pending other) := by
  rw [settleTransfer] at h
  split at h
  · cases h
    exact ⟨.refused rfl, nofun⟩
  next current hcurrent =>
  split at h
  · cases h
    exact ⟨.refused rfl, nofun⟩
  next hoffered =>
  split at h
  · cases h
    exact ⟨.refused rfl, nofun⟩
  refine ⟨recordTransfer_settles (fun hstate => absurd hstate houtcome) h, fun _ => ⟨?_, ?_⟩⟩
  · rw [not_or, not_not, not_not] at hoffered
    exact pending_iff.mpr ⟨current, hcurrent, hoffered.2, hoffered.1⟩
  · intro other hother
    obtain ⟨_, happend⟩ := recordTransfer_ok h
    obtain ⟨_, hdb'⟩ := appendEvent_ok happend
    obtain ⟨_, ht, hstate, _⟩ := pending_iff.mp hother
    rw [hdb'] at ht
    cases ht
    exact houtcome hstate

/-- A transaction of the handover that records. -/
theorem Settles.of_transact {ids : List String} {disk : Option String}
    {op : Database R → Except String (Database R × Bool)}
    (hop : ∀ {db' done}, op db = .ok (db', done) → Settles ids event db db' done)
    (h : db.transact disk op = (db', .ok true)) :
    op db = .ok (db', true) ∧ Settles ids event db db' true := by
  rcases db.transact_cases disk op with ⟨_, htx⟩ | ⟨_, _, _, hok, htx⟩
  · cases h.symm.trans htx
  · cases h.symm.trans htx
    exact ⟨hok, hop hok⟩

theorem settleTransfer_recorded {disk : Option String} {successorPid : Option Nat}
    {outcome : TransferState} (houtcome : outcome ≠ .offered)
    (h : db.transact disk (settleTransfer id successorPid outcome event) = (db', .ok true)) :
    Settles [] event db db' true ∧ db.Pending id ∧ ∀ other, ¬ db'.Pending other := by
  obtain ⟨hop, hsettles⟩ :=
    Settles.of_transact (fun h => (settleTransfer_settles houtcome h).1) h
  exact ⟨hsettles, (settleTransfer_settles houtcome hop).2 rfl⟩

end Database

/-! ## What a call may do -/

namespace Session

variable {R M T A : Type} {s s' s'' : Session R M} {start : Nat} {ids : List String}

/-- The daemon's next number is at most one above the last that is stored. -/
structure Ready (start : Nat) (s : Session R M) : Prop where
  numbered : s.db.Numbered start
  low : start < s.daemon.nextSeq
  high : s.daemon.nextSeq ≤ s.db.sequence + 1

/-- What a call does, as far as numbers, the handover and failures go; `ids` are the
transfers it may offer. -/
structure Moves (start : Nat) (ids : List String) (s s' : Session R M) : Prop where
  takeOver : s'.daemon.takeOver = s.daemon.takeOver
  ready : s.Ready start → s'.Ready start ∧ s.db.sequence ≤ s'.db.sequence
  pending : ∀ id, s'.db.Pending id → id ∈ ids ∨ s.db.Pending id
  serving : s'.daemon.coordination = .serving →
    s.daemon.coordination = .serving ∨ ∀ id, ¬ s'.db.Pending id
  latched : (s.daemon.storageError ≠ none → s.daemon.coordination = .serving) →
    s'.daemon.storageError ≠ none → s'.daemon.coordination = .serving
  owner : (s.daemon.coordination = .serving → s.daemon.ownerSuccessor = none) →
    s'.daemon.coordination = .serving → s'.daemon.ownerSuccessor = none

theorem Moves.refl : Moves start ids s s :=
  ⟨rfl, fun h => ⟨h, Nat.le_refl _⟩, fun _ h => .inr h, .inl, fun h => h, fun h => h⟩

theorem Moves.trans (h : Moves start ids s s') (h' : Moves start [] s' s'') :
    Moves start ids s s'' := by
  have hpending : ∀ id, s''.db.Pending id → s'.db.Pending id := fun id hid =>
    (h'.pending id hid).resolve_left List.not_mem_nil
  refine ⟨h'.takeOver.trans h.takeOver, fun hs => ?_, fun id hid => h.pending id (hpending id hid),
    fun hserving => ?_, fun hs => h'.latched (h.latched hs), fun hs => h'.owner (h.owner hs)⟩
  · obtain ⟨hmid, hle⟩ := h.ready hs
    obtain ⟨hlast, hle'⟩ := h'.ready hmid
    exact ⟨hlast, Nat.le_trans hle hle'⟩
  · rcases h'.serving hserving with hmid | hnone
    · exact (h.serving hmid).imp_right fun hnone id hid => hnone id (hpending id hid)
    · exact .inr hnone

/-- Nothing happened, but that storage may now be known to have failed. -/
structure Stands (s s' : Session R M) : Prop where
  left : ∃ err skipped, s' = { s with
    daemon := { s.daemon with storageError := err, skippedWrite := skipped } }
  failed : s.daemon.storageError ≠ none → s' = s
  noted : s'.daemon.storageError ≠ none →
    s.daemon.storageError ≠ none ∨ s.daemon.coordination = .serving

theorem Stands.moves (h : Stands s s') : Moves start ids s s' := by
  obtain ⟨⟨_, _, rfl⟩, _, hnoted⟩ := h
  exact ⟨rfl, fun hs => ⟨{ hs with }, Nat.le_refl _⟩, fun _ hid => .inr hid, .inl,
    fun hs herr => (hnoted herr).elim hs id, fun hs => hs⟩

theorem serving_of_not_fenced (h : ¬ s.fenced = true) : s.daemon.coordination = .serving := by
  rw [fenced, decide_eq_true_eq, not_not] at h
  exact h

/-- A write that does not land leaves everything and notes a failure; one that lands does
so on a daemon that serves. -/
theorem persist_ends {what : String} {disk : Option String}
    {write : Database R → Except String (Database R × A)} {p : Persisted} {written : Option A}
    (h : s.persist what disk write = (s', p, written)) :
    (p ≠ .committed ∧ written = none ∧ Stands s s' ∧
        (p = .failed → s'.daemon.storageError ≠ none)) ∨
      (p = .committed ∧ s.daemon.storageError = none ∧ s.daemon.coordination = .serving ∧
        ∃ db a, write s.db = .ok (db, a) ∧ written = some a ∧
          s' = ⟨db, { s.daemon with skippedWrite := false }⟩) := by
  rw [persist] at h
  split at h
  · next herr =>
    cases h
    exact .inl ⟨by simp, rfl, ⟨⟨_, _, rfl⟩, fun _ => rfl, .inl⟩,
      fun _ => Option.isSome_iff_ne_none.mp herr⟩
  next herr =>
  have hnone : s.daemon.storageError = none := Option.not_isSome_iff_eq_none.mp herr
  split at h
  · cases h
    exact .inl ⟨by simp, rfl, ⟨⟨_, _, rfl⟩, fun h => absurd hnone h, .inl⟩, by simp⟩
  next hfenced =>
  have hserving := serving_of_not_fenced hfenced
  rcases s.db.transact_cases disk write with ⟨_, htx⟩ | ⟨db, a, _, hwrite, htx⟩
  · rw [htx] at h
    cases h
    exact .inl ⟨by simp, rfl, ⟨⟨_, _, rfl⟩, fun h => absurd hnone h, fun _ => .inr hserving⟩,
      by simp⟩
  · rw [htx] at h
    cases h
    exact .inr ⟨rfl, hnone, hserving, db, a, hwrite, rfl, rfl⟩

variable {skipped : Bool} {event : Event} {db : Database R}

/-- Rows are written, and events appended from the daemon's next number on. -/
theorem appends_moves {rows : R} {kinds : List EventKind} {memory : M} {published : List Event}
    (hserving : s.daemon.coordination = .serving) (hnone : s.daemon.storageError = none)
    (h : { s.db with rows := rows }.appendEvents (numberFrom s.daemon.nextSeq kinds) = .ok db) :
    Moves start ids s ⟨db, { s.daemon with
      skippedWrite := skipped
      nextSeq := s.daemon.nextSeq + kinds.length
      memory := memory
      published := published }⟩ := by
  obtain ⟨_, htransfer, _⟩ := Database.appendEvents_ok h
  refine ⟨rfl, fun hs => ?_, fun id hid => .inr ?_, fun _ => .inl hserving,
    fun _ herr => absurd hnone herr, fun hs => hs⟩
  · have hrows : ({ s.db with rows := rows } : Database R).Numbered start :=
      { hs.numbered with }
    obtain ⟨hdb, hgrown, hnext⟩ := hrows.appendEvents hs.low hs.high h
    exact ⟨⟨hdb, Nat.lt_of_lt_of_le hs.low (Nat.le_add_right _ _), hnext⟩, hgrown⟩
  · rw [Database.pending_iff, htransfer] at hid
    exact Database.pending_iff.mpr hid

/-! ## Transitions -/

/-- The call's transaction committed: its rows and events are stored, and memory and the
channel have what followed. -/
structure Landed (s s' : Session R M) (new : List Event) (written : R) (changed : M) : Prop where
  rows : s'.db.rows = written
  events : s'.db.events = s.db.events ++ new
  published : s'.daemon.published = s.daemon.published ++ new
  memory : s'.daemon.memory = changed
  nextSeq : s'.daemon.nextSeq = s.daemon.nextSeq + new.length

/-- Nothing is stored, nothing is published and memory is as it was. -/
structure Left (s s' : Session R M) : Prop where
  db : s'.db = s.db
  published : s'.daemon.published = s.daemon.published
  memory : s'.daemon.memory = s.daemon.memory
  nextSeq : s'.daemon.nextSeq = s.daemon.nextSeq

theorem Stands.left_all (h : Stands s s') : Left s s' := by
  obtain ⟨⟨_, _, rfl⟩, _, _⟩ := h
  exact ⟨rfl, rfl, rfl, rfl⟩

/-- How a call that writes ends: nothing landed, or rows and events did, as `wrote` says, and
memory and the channel have what followed. -/
inductive Ends (s : Session R M) (wrote : R → List EventKind → M → Prop) :
    Session R M × Persisted → Prop
  | stood {s' : Session R M} {p : Persisted} (hp : p ≠ .committed) (h : Stands s s') :
      Ends s wrote (s', p)
  | landed {db : Database R} {rows : R} {kinds : List EventKind} {memory : M}
      (hnone : s.daemon.storageError = none) (hserving : s.daemon.coordination = .serving)
      (hwrote : wrote rows kinds memory)
      (happend : { s.db with rows := rows }.appendEvents (numberFrom s.daemon.nextSeq kinds) =
        .ok db) :
      Ends s wrote ((⟨db, { s.daemon with skippedWrite := false }⟩ : Session R M).advance
        (numberFrom s.daemon.nextSeq kinds) memory, .committed)

section Ends

variable {wrote : R → List EventKind → M → Prop} {result : Session R M × Persisted}

variable (h : Ends s wrote result)
include h

theorem Ends.moves : Moves start ids s result.1 := by
  cases h with
  | stood _ hstands => exact hstands.moves
  | @landed _ _ _ _ hnone hserving _ happend =>
    rw [advance, length_numberFrom]
    exact appends_moves hserving hnone happend

/-- What is stored, told and remembered goes together. -/
theorem Ends.whole : (result.2 = .committed ∧ ∃ rows kinds memory, wrote rows kinds memory ∧
      Landed s result.1 (numberFrom s.daemon.nextSeq kinds) rows memory) ∨
      (result.2 ≠ .committed ∧ Left s result.1) := by
  cases h with
  | stood hp hstands => exact .inr ⟨hp, hstands.left_all⟩
  | landed _ _ hwrote happend =>
    obtain ⟨hevents, _, hrows⟩ := Database.appendEvents_ok happend
    exact .inl ⟨rfl, _, _, _, hwrote, ⟨hrows, hevents, rfl, rfl, rfl⟩⟩

theorem Ends.failed (herr : s.daemon.storageError ≠ none) : result.1 = s := by
  cases h with
  | stood _ hstands => exact hstands.failed herr
  | landed hnone => exact absurd hnone herr

theorem Ends.ownerSuccessor : result.1.daemon.ownerSuccessor = s.daemon.ownerSuccessor := by
  cases h with
  | stood _ hstands =>
    obtain ⟨⟨_, _, rfl⟩, _, _⟩ := hstands
    rfl
  | landed => rfl

end Ends

section

variable (s : Session R M) (what : String)

theorem commit_ends (kinds : List EventKind) (disk : Option String)
    (write : R → List Event → Except String (R × T)) (apply : M → List Event → T → M) :
    Ends s (fun rows kinds' memory => kinds' = kinds ∧
        ∃ written, write s.db.rows (numberFrom s.daemon.nextSeq kinds) = .ok (rows, written) ∧
          memory = apply s.daemon.memory (numberFrom s.daemon.nextSeq kinds) written)
      (s.commit what kinds disk write apply) := by
  rw [commit]
  split
  · next s' written hpersist =>
    rcases persist_ends hpersist with ⟨hp, _⟩ | ⟨_, hnone, hserving, db, _, hwrite, hwritten, rfl⟩
    · exact absurd rfl hp
    cases hwritten
    simp only [bind_eq_ok, pure_eq_ok, Prod.mk.injEq] at hwrite
    obtain ⟨⟨_, written⟩, hwrite, _, happend, rfl, rfl⟩ := hwrite
    exact .landed hnone hserving ⟨rfl, written, hwrite, rfl⟩ happend
  next s' p written hnot hpersist =>
  rcases persist_ends hpersist with ⟨hp, _, hstands, _⟩ | ⟨rfl, _, _, _, a, _, rfl, _⟩
  · exact .stood hp hstands
  · exact (hnot a rfl rfl).elim

theorem commitProduced_ends (disk : Option String)
    (write : R → Nat → Except String (R × List EventKind × T)) (apply : M → List Event → T → M) :
    Ends s (fun rows kinds memory =>
        ∃ written, write s.db.rows s.daemon.nextSeq = .ok (rows, kinds, written) ∧
          memory = apply s.daemon.memory (numberFrom s.daemon.nextSeq kinds) written)
      (s.commitProduced what disk write apply) := by
  rw [commitProduced]
  split
  · next s' events written hpersist =>
    rcases persist_ends hpersist with ⟨hp, _⟩ | ⟨_, hnone, hserving, db, _, hwrite, hwritten, rfl⟩
    · exact absurd rfl hp
    cases hwritten
    simp only [bind_eq_ok, pure_eq_ok, Prod.mk.injEq] at hwrite
    obtain ⟨⟨_, _, written⟩, hwrite, _, happend, rfl, rfl, rfl⟩ := hwrite
    exact .landed hnone hserving ⟨written, hwrite, rfl⟩ happend
  next s' p written hnot hpersist =>
  rcases persist_ends hpersist with ⟨hp, _, hstands, _⟩ | ⟨rfl, _, _, _, a, _, rfl, _⟩
  · exact .stood hp hstands
  · exact (hnot a.1 a.2 rfl rfl).elim

theorem keep_ends (disk : Option String) (write : R → Except String R) :
    Ends s (fun rows kinds memory => kinds = [] ∧ write s.db.rows = .ok rows ∧
      memory = s.daemon.memory) (s.keep what disk write) := by
  rw [keep]
  split
  next s' p written hpersist =>
  rcases persist_ends hpersist with
    ⟨hp, _, hstands, _⟩ | ⟨rfl, hnone, hserving, db, a, hwrite, _, rfl⟩
  · exact .stood hp hstands
  simp only [bind_eq_ok, pure_eq_ok, Prod.mk.injEq] at hwrite
  obtain ⟨rows, hwrite, rfl, _⟩ := hwrite
  -- a write with no event publishes an empty list
  dsimp only
  rw [← List.append_nil s.daemon.published]
  exact @Ends.landed _ _ s _ _ rows [] _ hnone hserving ⟨rfl, hwrite, rfl⟩ rfl

end

/-- Every call that does not hand over ends so. -/
theorem perform_ends (s : Session R M) (act : Act R M T) (h : act.handsOver = false) :
    ∃ wrote p, Ends s wrote (act.perform s, p) := by
  cases act with
  | commit what kinds disk write apply => exact ⟨_, _, s.commit_ends what kinds disk write apply⟩
  | transition what kind disk write apply =>
    exact ⟨_, _, s.commit_ends what [kind] disk (writeFirst write) fun memory _ _ => apply memory⟩
  | commitProduced what disk write apply =>
    exact ⟨_, _, s.commitProduced_ends what disk write apply⟩
  | persist what disk write => exact ⟨_, _, s.keep_ends what disk write⟩
  | offer | readdress | abort => cases h

/-! ## Handing over -/

/-- The row is written with an event that has the daemon's next number. -/
theorem records_ready (hevent : event.seq = s.daemon.nextSeq)
    (h : Database.Settles ids event s.db db true) (hs : s.Ready start) :
    db.Numbered start ∧ s.db.sequence ≤ db.sequence ∧ s.daemon.nextSeq + 1 ≤ db.sequence + 1 := by
  cases h with
  | recorded transfer _ happend =>
    have hrow : ({ s.db with transfer := some transfer } : Database R).Numbered start :=
      { hs.numbered with }
    obtain ⟨hseq, _, hdb⟩ :=
      hrow.appendEvent (hevent ▸ hs.low) (hevent ▸ hs.high) happend
    have hnext : s.daemon.nextSeq = s.db.sequence + 1 := hevent.symm.trans hseq
    exact ⟨hdb, by omega, by omega⟩

theorem records_pending (h : Database.Settles ids event s.db db true) (id : String)
    (hid : db.Pending id) : id ∈ ids ∨ s.db.Pending id := by
  cases h with
  | recorded _ hids happend =>
    obtain ⟨_, hdb⟩ := Database.appendEvent_ok happend
    obtain ⟨_, ht, hoffered, rfl⟩ := Database.pending_iff.mp hid
    rw [hdb] at ht
    cases ht
    exact hids hoffered

/-- A write of the handover that landed, and what the daemon makes of it. -/
theorem records_moves {coordination : Coordination} {successor : Option (Nat × Time)}
    {deferred : List (Recovery R)} (hevent : event.seq = s.daemon.nextSeq)
    (h : Database.Settles ids event s.db db true)
    (hserving : coordination = .serving → ∀ id, ¬ db.Pending id)
    (hlatched : s.daemon.storageError ≠ none → s.daemon.coordination = .serving →
      coordination = .serving)
    (howner : coordination = .serving → successor = none) :
    Moves start ids s ⟨db, { s.daemon with
      coordination := coordination
      skippedWrite := skipped
      ownerSuccessor := successor
      deferredRecovery := deferred
      nextSeq := s.daemon.nextSeq + 1
      published := s.daemon.published ++ [event] }⟩ where
  takeOver := rfl
  ready := fun hs =>
    have hrecords := records_ready hevent h hs
    ⟨⟨hrecords.1, Nat.lt_succ_of_lt hs.low, hrecords.2.2⟩, hrecords.2.1⟩
  pending := records_pending h
  serving := fun hc => .inr (hserving hc)
  latched := fun hs herr => hlatched herr (hs herr)
  owner := fun _ hc => howner hc

theorem offerTransfer_moves (s : Session R M) (id : String) (successorPid : Nat)
    (disk : Option String) : Moves start [id] s (s.offerTransfer id successorPid disk).1 := by
  rw [offerTransfer]
  split
  · exact .refl
  next hwritable =>
  have hnone : s.daemon.storageError = none := by
    rw [writeFailure] at hwritable
    split at hwritable
    · cases hwritable
    · assumption
  split
  · exact .refl
  next hfenced =>
  split
  · exact .refl
  dsimp only
  split
  · next db htx =>
    exact records_moves rfl (Database.Settles.of_transact Database.offerTransfer_settles htx).2
      nofun (fun herr => absurd hnone herr) nofun
  · exact .refl
  · exact Stands.moves ⟨⟨_, _, rfl⟩, fun h => absurd hnone h,
      fun _ => .inr (serving_of_not_fenced hfenced)⟩

theorem readdressOffer_moves (s : Session R M) (transfer : String) (successorPid : Nat)
    (born : Option Time) (disk : Option String) :
    Moves start [] s (s.readdressOffer transfer successorPid born disk).1 := by
  rw [readdressOffer]
  split
  next current hquiescing =>
    have hfenced : s.daemon.coordination ≠ .serving := by
      rw [hquiescing]
      simp
    split
    · exact .refl
    dsimp only
    split
    · next db htx =>
      have hsettles := (Database.Settles.of_transact Database.readdressTransfer_settles htx).2
      exact records_moves rfl hsettles (fun h => absurd h hfenced) (fun _ h => absurd h hfenced)
        fun h => absurd h hfenced
    · exact .refl
    · exact .refl
  next => exact .refl

/-- The successor reaches no owner from here on. -/
theorem forget_moves (s : Session R M) :
    Moves start ids s { s with daemon := { s.daemon with ownerSuccessor := none } } :=
  ⟨rfl, fun h => ⟨{ h with }, Nat.le_refl _⟩, fun _ h => .inr h, .inl, fun h => h, fun _ _ => rfl⟩

/-- It was not ours to abort any more. -/
theorem transferred_moves {transfer : String} (hfenced : s.daemon.coordination ≠ .serving) :
    Moves start ids s
      { s with daemon := { s.daemon with coordination := .transferred transfer } } where
  takeOver := rfl
  ready := fun h => ⟨{ h with }, Nat.le_refl _⟩
  pending := fun _ h => .inr h
  serving := nofun
  latched := fun hs herr => absurd (hs herr) hfenced
  owner := nofun

theorem abortTransfer_moves (s : Session R M) (reason : String) (disk : Option String) :
    Moves start [] s (s.abortTransfer reason disk).1 := by
  refine .trans s.forget_moves ?_
  rw [abortTransfer]
  dsimp only
  split
  next transfer hquiescing =>
    split
    · next db htx =>
      obtain ⟨hsettles, -, hdone⟩ := Database.settleTransfer_recorded (by simp) htx
      exact records_moves rfl hsettles (fun _ => hdone) (fun _ _ => rfl) fun _ => rfl
    · have hfenced : s.daemon.coordination ≠ .serving := by
        rw [show s.daemon.coordination = .quiescing transfer from hquiescing]
        simp
      exact transferred_moves hfenced
    · exact .refl
  next => exact .refl

theorem runDeferred_moves {disk : Nat → Option String} (writes : List (Recovery R)) (use : Nat)
    (s : Session R M) : Moves start [] s (runDeferred disk writes use s) := by
  induction writes generalizing use s with
  | nil => exact .refl
  | cons _ _ ih =>
    rw [runDeferred]
    split
    · next s' written hpersist =>
      rcases persist_ends hpersist with ⟨_, _, hstands, _⟩ | ⟨hp, _⟩
      · exact hstands.moves
      · cases hp
    next s' p used hfailed hpersist =>
    rcases persist_ends hpersist with
      ⟨_, rfl, hstands, _⟩ | ⟨rfl, hnone, hserving, db, a, hwrite, rfl, rfl⟩
    · exact hstands.moves.trans (ih _ s')
    · simp only [bind_eq_ok, pure_eq_ok, Prod.mk.injEq] at hwrite
      obtain ⟨⟨_, _⟩, _, _, happend, rfl, rfl⟩ := hwrite
      exact (appends_moves hserving hnone happend).trans (ih _ _)

theorem acceptTransfer_moves (transfer : String) (disk : Nat → Option String)
    (howner : s.daemon.ownerSuccessor = none) :
    Moves start [] s (s.acceptTransfer transfer disk).1 := by
  rw [acceptTransfer]
  split
  · next db htx =>
    obtain ⟨hsettles, -, hdone⟩ := Database.settleTransfer_recorded (by simp) htx
    have haccepted : Moves start [] s ⟨db, { s.daemon with
        coordination := .serving
        deferredRecovery := []
        nextSeq := s.daemon.nextSeq + 1
        published := s.daemon.published ++
          [⟨s.daemon.nextSeq, .daemonTransferAccepted transfer⟩] }⟩ :=
      records_moves rfl hsettles (fun _ => hdone) (fun _ _ => rfl) fun _ => howner
    exact haccepted.trans (runDeferred_moves s.daemon.deferredRecovery 1 _)
  · exact .refl
  · exact .refl

/-- A transfer that is not offered is not accepted. -/
theorem acceptTransfer_refused {transfer : String} {disk : Nat → Option String}
    (h : ¬ s.db.Pending transfer) : ∃ why, s.acceptTransfer transfer disk = (s, .error why) := by
  rw [acceptTransfer]
  split
  · next db htx => exact absurd (Database.settleTransfer_recorded (by simp) htx).2.1 h
  · exact ⟨_, rfl⟩
  · exact ⟨_, rfl⟩

theorem perform_moves {act : Act R M T} : Moves start (Cluster.draws act) s (act.perform s) := by
  cases hhands : act.handsOver with
  | false =>
    obtain ⟨_, _, hends⟩ := s.perform_ends act hhands
    exact hends.moves
  | true =>
    cases act with
    | commit | transition | commitProduced | persist => cases hhands
    | offer id successorPid disk => exact s.offerTransfer_moves id successorPid disk
    | readdress transfer successorPid born disk =>
      exact s.readdressOffer_moves transfer successorPid born disk
    | abort reason disk => exact s.abortTransfer_moves reason disk

/-! ## After a failure -/

/-- A daemon whose storage failed while it served does nothing more. -/
theorem perform_failed {act : Act R M T} (herr : s.daemon.storageError ≠ none)
    (hserving : s.daemon.coordination = .serving) (howner : s.daemon.ownerSuccessor = none) :
    act.perform s = s := by
  obtain ⟨_, herr'⟩ := Option.ne_none_iff_exists'.mp herr
  cases hhands : act.handsOver with
  | false =>
    obtain ⟨_, _, hends⟩ := s.perform_ends act hhands
    exact hends.failed herr
  | true =>
    cases act with
    | commit | transition | commitProduced | persist => cases hhands
    | offer =>
      rw [Act.perform, offerTransfer, writeFailure, herr']
    | readdress =>
      rw [Act.perform, readdressOffer, hserving]
    | abort =>
      have hforgot : { s with daemon := { s.daemon with ownerSuccessor := none } } = s := by
        rw [← howner]
      rw [Act.perform, abortTransfer, hforgot, hserving]

/-! ## Runs -/

/-- What holds of every daemon, with the database as it is. -/
structure Fit (start : Nat) (drawn : List String) (s : Session R M) : Prop where
  ready : s.Ready start
  latched : s.daemon.storageError ≠ none → s.daemon.coordination = .serving
  owner : s.daemon.coordination = .serving ∨ s.daemon.takeOver ≠ none →
    s.daemon.ownerSuccessor = none
  /-- A process that serves before it took over came too late. -/
  gone : ∀ id, s.daemon.takeOver = some id →
    id ∈ drawn ∧ (s.daemon.coordination = .serving → ¬ s.db.Pending id)

variable {drawn : List String}

theorem Fit.moves (hs : Fit start drawn s) (h : Moves start ids s s')
    (hfresh : ∀ id ∈ ids, id ∉ drawn)
    (howner : s'.daemon.takeOver ≠ none → s'.daemon.ownerSuccessor = none) :
    Fit start (ids ++ drawn) s' where
  ready := (h.ready hs.ready).1
  latched := h.latched hs.latched
  owner := fun hcase => hcase.elim (h.owner fun hserving => hs.owner (.inl hserving)) howner
  gone := fun id hid => by
    rw [h.takeOver] at hid
    obtain ⟨hdrawn, hgone⟩ := hs.gone id hid
    refine ⟨List.mem_append_right _ hdrawn, fun hserving hpending => ?_⟩
    rcases h.serving hserving with hbefore | hnone
    · rcases h.pending id hpending with hnew | hold
      · exact hfresh id hnew hdrawn
      · exact hgone hbefore hold
    · exact hnone id hpending

/-- What another process does leaves a daemon fit. -/
theorem Fit.aside {d : Coordinator R M} (hd : Fit start drawn ⟨s.db, d⟩) (h : Moves start ids s s')
    (hs : s.Ready start) (hfresh : ∀ id ∈ ids, id ∉ drawn) :
    Fit start (ids ++ drawn) ⟨s'.db, d⟩ where
  ready :=
    have hmoved := h.ready hs
    ⟨hmoved.1.numbered, hd.ready.low, Nat.le_trans hd.ready.high (Nat.succ_le_succ hmoved.2)⟩
  latched := hd.latched
  owner := hd.owner
  gone := fun id hid => by
    obtain ⟨hdrawn, hgone⟩ := hd.gone id hid
    refine ⟨List.mem_append_right _ hdrawn, fun hserving hpending => ?_⟩
    rcases h.pending id hpending with hnew | hold
    · exact hfresh id hnew hdrawn
    · exact hgone hserving hold

end Session

namespace Cluster

variable {R M T : Type} {c : Cluster R M} {start : Nat}

open Session

structure Sound (start : Nat) (c : Cluster R M) : Prop where
  numbered : c.db.Numbered start
  fit : ∀ d ∈ c.daemons, Fit start c.drawn ⟨c.db, d⟩

/-- One daemon acted, and the others have the database as it left it. -/
theorem Sound.put (hc : c.Sound start) {s s' : Session R M} {ids : List String} (hdb : s.db = c.db)
    (hs : Fit start c.drawn s) (h : Moves start ids s s') (hfresh : ∀ id ∈ ids, id ∉ c.drawn)
    (howner : s'.daemon.takeOver ≠ none → s'.daemon.ownerSuccessor = none) :
    ({ c.put s' with drawn := ids ++ c.drawn } : Cluster R M).Sound start where
  numbered := (h.ready hs.ready).1.numbered
  fit := fun d hd => by
    rcases mem_insert.mp hd with rfl | ⟨hd, _⟩
    · exact hs.moves h hfresh howner
    · have hd : Fit start c.drawn ⟨s.db, d⟩ := hdb ▸ hc.fit d hd
      exact hd.aside h hs.ready hfresh

theorem Sound.of_subset {c' : Cluster R M} (hc : c.Sound start) (hdb : c'.db = c.db)
    (hdrawn : c'.drawn = c.drawn) (hdaemons : ∀ d ∈ c'.daemons, d ∈ c.daemons) :
    c'.Sound start := by
  refine ⟨hdb ▸ hc.numbered, fun d hd => ?_⟩
  rw [hdb, hdrawn]
  exact hc.fit d (hdaemons d hd)

/-- A process that opened the database goes on from its last number, and is fenced while a
transfer is offered. -/
theorem opening_fit (hc : c.Sound start) {pid : Nat} {takeOver : Option String}
    {deferred : List (Recovery R)} {memory : M} (hdrawn : ∀ id, takeOver = some id → id ∈ c.drawn) :
    Fit start c.drawn ⟨c.db, opening c.db pid takeOver deferred memory⟩ where
  ready := ⟨hc.numbered, by
    show start < c.db.sequence + 1
    rw [hc.numbered.sequence]
    omega, Nat.le_refl _⟩
  latched := fun h => absurd rfl h
  owner := fun _ => rfl
  gone := fun id hid => by
    refine ⟨hdrawn id hid, fun hserving hpending => ?_⟩
    rw [Database.Pending] at hpending
    simp only [opening] at hserving
    split at hserving
    · cases hserving
    next hnone =>
    rw [hnone] at hpending
    cases hpending

theorem Sound.step (hc : c.Sound start) (op : Op R M T) : (c.step op).Sound start := by
  cases op with
  | opened =>
    rw [Cluster.step]
    split
    · exact hc
    next hnew =>
    rw [Bool.or_eq_true, not_or] at hnew
    refine ⟨hc.numbered, fun d hd => ?_⟩
    rcases mem_insert.mp hd with rfl | ⟨hd, _⟩
    · refine opening_fit hc fun id hid => ?_
      by_contra hundrawn
      refine hnew.2 ?_
      rw [hid, Option.any_some, decide_eq_true_eq]
      exact hundrawn
    · exact hc.fit d hd
  | act _ act =>
    rw [Cluster.step]
    split
    · exact hc
    next d hget =>
    split
    · exact hc
    next hdrawn =>
    split
    · exact hc
    next hserves =>
    have hd := hc.fit d (get?_eq_some.mp hget).1
    have hfresh (id : String) (hid : id ∈ draws act) : id ∉ c.drawn := fun h =>
      hdrawn (List.any_eq_true.mpr ⟨id, hid, decide_eq_true h⟩)
    have hmoves : Moves start (draws act) ⟨c.db, d⟩ (act.perform ⟨c.db, d⟩) :=
      perform_moves
    refine hc.put rfl hd hmoves hfresh fun htake => ?_
    rw [hmoves.takeOver] at htake
    have hhands : act.handsOver = false := by
      rw [Bool.and_eq_true, not_and, Bool.not_eq_true] at hserves
      exact hserves (Option.isSome_iff_ne_none.mpr htake)
    obtain ⟨_, _, hends⟩ := Session.perform_ends _ act hhands
    exact hends.ownerSuccessor.trans (hd.owner (.inr htake))
  | accept _ disk =>
    rw [Cluster.step]
    split
    · exact hc
    next d hget =>
    split
    · exact hc
    next transfer htake =>
    split
    next s' u haccept =>
      have hd := hc.fit d (get?_eq_some.mp hget).1
      have howner : d.ownerSuccessor = none := hd.owner (.inr (by rw [htake]; simp))
      have hfit : Fit start c.drawn ⟨c.db, { d with takeOver := none }⟩ :=
        ⟨{ hd.ready with }, hd.latched, fun _ => howner, fun _ h => by cases h⟩
      have hmoves : Moves start [] ⟨c.db, { d with takeOver := none }⟩
          ((⟨c.db, { d with takeOver := none }⟩ : Session R M).acceptTransfer transfer disk).1 :=
        acceptTransfer_moves transfer disk howner
      rw [haccept] at hmoves
      refine hc.put rfl hfit hmoves (by simp) fun h => ?_
      rw [hmoves.takeOver] at h
      exact absurd rfl h
    next => exact hc.of_subset rfl rfl fun d hd => (mem_erase.mp hd).1
  | admitted =>
    rw [Cluster.step]
    split
    · exact hc
    next d hget =>
    have hd := hc.fit d (get?_eq_some.mp hget).1
    refine ⟨hc.numbered, fun d' hd' => ?_⟩
    rcases mem_insert.mp hd' with rfl | ⟨hd', _⟩
    · exact { hd with ready := { hd.ready with } }
    · exact hc.fit d' hd'
  | stop => exact hc.of_subset rfl rfl fun d hd => (mem_erase.mp hd).1

/-! ## The log -/

namespace Blank

def db : Database Unit := ⟨none, (), [], 0⟩

/-- An offer is made, and the disk fails when the successor is named. -/
def unnamed : List (Op Unit Unit Unit) :=
  [.opened 1 none [] (), .act 1 (.offer "t1" 1 none),
   .act 1 (.readdress "t1" 2 none (some "disk I/O error"))]

def abort : Op Unit Unit Unit := .act 1 (.abort "could not address the offer" none)

/-- The number is taken over with the database: two recovery writes follow the acceptance. -/
def handedOver : List (Op Unit Unit Unit) :=
  [.opened 1 none [] (), .act 1 (.offer "t1" 1 none), .act 1 (.readdress "t1" 2 none none),
   .opened 2 (some "t1")
     [fun rows _ => .ok (rows, []), fun rows _ => .ok (rows, [.journalRead "a" "p" 1])] (),
   .accept 2 fun _ => none]

end Blank

/-- A write of the daemon has failed, and a later one of its calls writes and publishes. -/
theorem unnamed_aborts :
    (run step (closed Blank.db) Blank.unnamed).db.events = [⟨1, .daemonTransferOffered "t1" 1⟩] ∧
      ((run step (closed Blank.db) Blank.unnamed).step Blank.abort).db.events =
        [⟨1, .daemonTransferOffered "t1" 1⟩,
          ⟨2, .daemonTransferAborted "t1" "could not address the offer"⟩] ∧
      (((run step (closed Blank.db) Blank.unnamed).step Blank.abort).daemons.get? 1).map
        Coordinator.published = some [⟨1, .daemonTransferOffered "t1" 1⟩,
          ⟨2, .daemonTransferAborted "t1" "could not address the offer"⟩] := by
  decide +kernel

/-- A transaction fails, on disk or in a statement of its own. -/
def Fails {A : Type} (c : Cluster R M) (disk : Option String)
    (op : Database R → Except String (Database R × A)) : Prop :=
  ∃ err, (c.db.transact disk op).2 = .error err

structure Integrity (c : Cluster R M) : Prop where
  /-- The events are numbered one after the other. -/
  consecutive : ∃ first, c.db.events.map Event.seq = List.range' first c.db.events.length
  commit : ∀ d ∈ c.daemons, ∀ (T : Type) what kinds disk
    (write : R → List Event → Except String (R × T)) apply,
    let s : Session R M := ⟨c.db, d⟩
    let events := numberFrom d.nextSeq kinds
    ((s.commit what kinds disk write apply).2 = .committed ∧
      ∃ rows written, write c.db.rows events = .ok (rows, written) ∧
        Landed s (s.commit what kinds disk write apply).1 events rows
          (apply d.memory events written)) ∨
      ((s.commit what kinds disk write apply).2 ≠ .committed ∧
        Left s (s.commit what kinds disk write apply).1)
  produced : ∀ d ∈ c.daemons, ∀ (T : Type) what disk
    (write : R → Nat → Except String (R × List EventKind × T)) apply,
    let s : Session R M := ⟨c.db, d⟩
    ((s.commitProduced what disk write apply).2 = .committed ∧
      ∃ rows kinds written, write c.db.rows d.nextSeq = .ok (rows, kinds, written) ∧
        Landed s (s.commitProduced what disk write apply).1 (numberFrom d.nextSeq kinds) rows
          (apply d.memory (numberFrom d.nextSeq kinds) written)) ∨
      ((s.commitProduced what disk write apply).2 ≠ .committed ∧
        Left s (s.commitProduced what disk write apply).1)
  transition : ∀ d ∈ c.daemons, ∀ what kind disk write apply,
    let s : Session R M := ⟨c.db, d⟩
    ((s.transition what kind disk write apply).2 = .committed ∧
      ∃ rows, write c.db.rows ⟨d.nextSeq, kind⟩ = .ok rows ∧
        Landed s (s.transition what kind disk write apply).1 [⟨d.nextSeq, kind⟩] rows
          (apply d.memory)) ∨
      ((s.transition what kind disk write apply).2 ≠ .committed ∧
        Left s (s.transition what kind disk write apply).1)
  persist : ∀ d ∈ c.daemons, ∀ what disk write,
    let s : Session R M := ⟨c.db, d⟩
    ((s.keep what disk write).2 = .committed ∧ ∃ rows, write c.db.rows = .ok rows ∧
      Landed s (s.keep what disk write).1 [] rows d.memory) ∨
      ((s.keep what disk write).2 ≠ .committed ∧ Left s (s.keep what disk write).1)
  /-- What fails in these calls, and in an offer, is noted. -/
  noted : ∀ d ∈ c.daemons,
    (∀ (A : Type) what disk (write : Database R → Except String (Database R × A)),
      ((⟨c.db, d⟩ : Session R M).persist what disk write).2.1 = .failed →
        ((⟨c.db, d⟩ : Session R M).persist what disk write).1.daemon.storageError ≠ none) ∧
      ∀ id pid disk, c.Fails disk (Database.offerTransfer ⟨id, d.pid, some pid, .offered⟩
          ⟨d.nextSeq, .daemonTransferOffered id pid⟩) →
        ((⟨c.db, d⟩ : Session R M).offerTransfer id pid disk).1 = ⟨c.db, d⟩ ∨
          ((⟨c.db, d⟩ : Session R M).offerTransfer id pid disk).1.daemon.storageError ≠ none
  /-- A daemon that knows its storage has failed does nothing more through any call, its
  acceptance and the rest of its recovery included. -/
  failed : ∀ d ∈ c.daemons, d.storageError ≠ none →
    (∀ (T : Type) (act : Act R M T), act.perform ⟨c.db, d⟩ = ⟨c.db, d⟩) ∧
      (∀ transfer, d.takeOver = some transfer → ∀ disk,
        ∃ why, (⟨c.db, d⟩ : Session R M).acceptTransfer transfer disk = (⟨c.db, d⟩, .error why)) ∧
      ∀ disk writes use, runDeferred disk writes use ⟨c.db, d⟩ = ⟨c.db, d⟩
  /-- A readdressing or an abort that fails leaves the daemon fenced as it was, apart from
  the successor, which reaches no owner any more. -/
  fenced : ∀ d ∈ c.daemons, ∀ disk,
    (∀ transfer pid born, c.Fails disk (Database.readdressTransfer transfer pid
        ⟨d.nextSeq, .daemonTransferReaddressed transfer pid⟩) →
      ((⟨c.db, d⟩ : Session R M).readdressOffer transfer pid born disk).1 = ⟨c.db, d⟩) ∧
      ∀ reason, (∀ transfer, d.coordination = .quiescing transfer →
          c.Fails disk (Database.settleTransfer transfer none .aborted
            ⟨d.nextSeq, .daemonTransferAborted transfer reason⟩)) →
        ((⟨c.db, d⟩ : Session R M).abortTransfer reason disk).1 =
          ⟨c.db, { d with ownerSuccessor := none }⟩

theorem Sound.integrity (hc : c.Sound start) : c.Integrity where
  consecutive := ⟨start + 1, hc.numbered.events⟩
  commit d _ _ what kinds disk write apply := by
    rcases (commit_ends ⟨c.db, d⟩ what kinds disk write apply).whole with
      ⟨hp, rows, _, _, ⟨rfl, written, hwrite, rfl⟩, hlanded⟩ | hleft
    · exact .inl ⟨hp, rows, written, hwrite, hlanded⟩
    · exact .inr hleft
  produced d _ _ what disk write apply := by
    rcases (commitProduced_ends ⟨c.db, d⟩ what disk write apply).whole with
      ⟨hp, rows, kinds, _, ⟨written, hwrite, rfl⟩, hlanded⟩ | hleft
    · exact .inl ⟨hp, rows, kinds, written, hwrite, hlanded⟩
    · exact .inr hleft
  transition d _ what kind disk write apply := by
    rcases (commit_ends ⟨c.db, d⟩ what [kind] disk (writeFirst write) fun memory _ _ =>
        apply memory).whole with ⟨hp, rows, _, _, ⟨rfl, written, hwrite, rfl⟩, hlanded⟩ | hleft
    · rw [show numberFrom d.nextSeq [kind] = [⟨d.nextSeq, kind⟩] from rfl] at hwrite
      simp only [writeFirst, bind_eq_ok, pure_eq_ok, Prod.mk.injEq] at hwrite
      obtain ⟨rows', hwrite, rfl, _⟩ := hwrite
      exact .inl ⟨hp, rows', hwrite, hlanded⟩
    · exact .inr hleft
  persist d _ what disk write := by
    rcases (keep_ends ⟨c.db, d⟩ what disk write).whole with
      ⟨hp, rows, _, _, ⟨rfl, hwrite, rfl⟩, hlanded⟩ | hleft
    · exact .inl ⟨hp, rows, hwrite, hlanded⟩
    · exact .inr hleft
  noted d _ := by
    refine ⟨fun _ what disk write h => ?_, fun id pid disk ⟨err, herr⟩ => ?_⟩
    · rcases persist_ends (rfl : Session.persist ⟨c.db, d⟩ what disk write = _) with
        ⟨_, _, _, hnoted⟩ | ⟨hp, _⟩
      · exact hnoted h
      · cases hp.symm.trans h
    · rw [offerTransfer]
      split
      · exact .inl rfl
      split
      · exact .inl rfl
      split
      · exact .inl rfl
      dsimp only
      split
      · next htx => cases herr.symm.trans (congrArg Prod.snd htx)
      · exact .inl rfl
      · exact .inr (by simp)
  failed d hd herr := by
    have hfit := hc.fit d hd
    have hserving := hfit.latched herr
    refine ⟨fun _ act => perform_failed herr hserving (hfit.owner (.inl hserving)),
      fun transfer htake disk => ?_, fun disk writes use => ?_⟩
    · exact acceptTransfer_refused ((hfit.gone transfer htake).2 hserving)
    · cases writes with
      | nil => rfl
      | cons =>
        obtain ⟨_, herr'⟩ := Option.ne_none_iff_exists'.mp herr
        rw [runDeferred, Session.persist, herr']
        rfl
  fenced d _ disk := by
    refine ⟨fun transfer pid born ⟨err, herr⟩ => ?_, fun reason hfails => ?_⟩
    · rw [readdressOffer]
      split
      · split
        · rfl
        dsimp only
        split
        · next htx => cases herr.symm.trans (congrArg Prod.snd htx)
        · rfl
        · rfl
      · rfl
    · rw [abortTransfer]
      dsimp only
      split
      · next transfer hquiescing =>
        obtain ⟨_, herr⟩ := hfails transfer hquiescing
        split
        · next htx => cases herr.symm.trans (congrArg Prod.snd htx)
        · next htx => cases herr.symm.trans (congrArg Prod.snd htx)
        · rfl
      · rfl

/-- However daemons write, hand over, fail and are fenced, the log has no hole and no number
twice, and what a call stores, tells and remembers goes together. -/
theorem run_integrity {db : Database R} (hdb : db.Numbered start) (ops : List (Op R M T)) :
    (run step (closed db) ops).Integrity := by
  have hclosed : (closed db : Cluster R M).Sound start := ⟨hdb, fun _ hd => absurd hd not_mem_empty⟩
  exact (always_of_invariant hclosed fun c op hc => hc.step op).last.integrity

theorem run_integrity_handedOver :
    (run step (closed Blank.db) Blank.handedOver).db.events.map Event.seq = [1, 2, 3, 4] ∧
      (run step (closed Blank.db) Blank.handedOver).Integrity :=
  ⟨by decide +kernel, run_integrity ⟨rfl, rfl⟩ Blank.handedOver⟩

end Cluster

end AgentDocker.Daemon
