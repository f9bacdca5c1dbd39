import AgentDocker.Proofs.Transfers
import AgentDocker.Proofs.Turns

/-!
# What one step of the daemon can do

A step is a claim's request, a claim's turn, or a hold that is no claim's:
a renewal, a release, an expiry, a handoff, the two ends of a transfer, or a
change of the agents. `Aside` is what all of the last kind share; the one thing
in which they differ that anybody waiting can notice is whether a lease leaves
with an event or changes hands without one.

`step_went` sorts every step into these, and is the only place where the step
function is unfolded.
-/

namespace AgentDocker.Daemon

open AgentDocker.Core Lib Keyed

namespace State

/-- A hold that is no claim's. `time` is when leases may have expired in it, and
`handed` names the holder a lease may have changed to. -/
structure Aside (time : Option Time) (handed : Lease → AgentId) (s s' : State)
    (more : List Event) : Prop where
  waiting : s'.waiting = s.waiting
  published : s'.published = s.published ++ more
  faults : s'.store.faults = s.store.faults
  latched : s.storageError ≠ none → s'.storageError ≠ none
  sound : (∀ n, s.store.faults n = none) → s.storageError = none → s'.storageError = none
  mirrors : Mirroring time s s'
  quiet : Quiet more
  kept : ∀ l' ∈ s'.leases, ∃ l ∈ s.leases, l'.id = l.id ∧ l'.resource = l.resource ∧
    l'.mode = l.mode ∧ (l'.holder = l.holder ∨ l'.holder = handed l) ∧ l'.amount = l.amount
  said : ∀ l ∈ s.leases, (∃ l' ∈ s'.leases, l'.resource = l.resource ∧ l'.mode = l.mode ∧
      (l'.holder = l.holder ∨ l'.holder = handed l)) ∨
    s'.storageError ≠ none ∨
    ∃ e ∈ more, e.kind = .leaseReleased l ∨ e.kind = .leaseExpired l

variable {time : Option Time}

variable {l renewed : Lease} {more : List Event} {s s' : State} {now : Time}

theorem Aside.of_mem_iff {handed : Lease → AgentId} (h : Moved s s' more)
    (hw : s'.waiting = s.waiting) (hq : Quiet more) (hl : ∀ l, l ∈ s'.leases ↔ l ∈ s.leases)
    (hr : s'.store.leases = s.store.leases) :
    Aside time handed s s' more :=
  ⟨hw, h.published, h.faults, h.latched, h.sound, .of_same hl hr h.latched, hq,
    fun l hl' => ⟨l, (hl l).mp hl', rfl, rfl, rfl, .inl rfl, rfl⟩,
    fun l hl' => .inl ⟨l, (hl l).mpr hl', rfl, rfl, .inl rfl⟩⟩

theorem Passed.aside (h : Passed time s s' more) : Aside time Lease.holder s s' more where
  __ := h
  kept l hl := ⟨l, h.kept l hl, rfl, rfl, rfl, .inl rfl, rfl⟩
  said l hl := by
    rcases h.said l hl with hl' | herr | ⟨e, he, hk⟩
    · exact .inl ⟨l, hl', rfl, rfl, .inl rfl⟩
    · exact .inr (.inl herr)
    · exact .inr (.inr ⟨e, he, .inr hk⟩)

/-- Time passes before a hold as it does in one. -/
theorem Aside.after {s₀ : State} {more' : List Event} (h₀ : Passed time s₀ s more)
    (h : Aside time Lease.holder s s' more') :
    Aside time Lease.holder s₀ s' (more ++ more') where
  waiting := h.waiting.trans h₀.waiting
  published := by rw [h.published, h₀.published, List.append_assoc]
  faults := h.faults.trans h₀.faults
  latched hs := h.latched (h₀.latched hs)
  sound hf hs := h.sound (h₀.faults ▸ hf) (h₀.sound hf hs)
  mirrors := h₀.mirrors.trans h.mirrors
  quiet := h₀.quiet.append h.quiet
  kept l' hl' := by
    obtain ⟨l, hl, hrest⟩ := h.kept l' hl'
    exact ⟨l, h₀.kept l hl, hrest⟩
  said l hl := by
    rcases h₀.said l hl with hl' | hsaid
    · exact (h.said l hl').imp_right said_right
    · refine .inr (said_left h.latched (hsaid.imp_right ?_))
      exact fun ⟨e, he, hk⟩ => ⟨e, he, .inr hk⟩

/-! ## Renewals -/

/-- A lease written over by a copy with another expiry. -/
theorem commitLeaseActivity_renewed (hl : l ∈ s.leases) (hid : renewed.id = l.id)
    (hr : renewed.resource = l.resource) (hm : renewed.mode = l.mode)
    (hh : renewed.holder = l.holder) (ha : renewed.amount = l.amount) :
    ∃ more, Aside time Lease.holder s
      (s.commitLeaseActivity (some renewed) (some (.leaseRenewed renewed))).1 more := by
  unfold commitLeaseActivity
  dsimp only
  have hmoved := commit_moved s "lease activity" (some (EventKind.leaseRenewed renewed)).toList
    (·.insert renewed) (·.restore renewed)
  refine ⟨_, commit_waiting .., hmoved.published, hmoved.faults, hmoved.latched, hmoved.sound,
    commit_mirroring _ _ _ _ _ fun hsame k => ?_, sent_quiet (by simp [EventKind.ends]), ?_, ?_⟩
  · rw [LeaseTable.restore, mem_insert, mem_insert, hsame]
  · intro l' hl'
    rw [commit_leases] at hl'
    split at hl'
    · rcases mem_insert.mp hl' with rfl | ⟨hl', -⟩
      · exact ⟨l, hl, hid, hr, hm, .inl hh, ha⟩
      · exact ⟨l', hl', rfl, rfl, rfl, .inl rfl, rfl⟩
    · exact ⟨l', hl', rfl, rfl, rfl, .inl rfl, rfl⟩
  · intro k hk
    left
    rw [commit_leases]
    split
    · by_cases heq : k.id = renewed.id
      · have hkl := eq_of_key_eq hk hl (heq.trans hid)
        exact ⟨renewed, mem_insert.mpr (.inl rfl), hkl ▸ hr, hkl ▸ hm, .inl (hkl ▸ hh)⟩
      · exact ⟨k, mem_insert.mpr (.inr ⟨hk, heq⟩), rfl, rfl, .inl rfl⟩
    · exact ⟨k, hk, rfl, rfl, .inl rfl⟩

theorem renew_ok {t t' : LeaseTable} {id : LeaseId} {holder : AgentId} {ttl : Time}
    (h : t.renew id holder ttl now = (t', .ok renewed)) :
    ∃ l ∈ t, renewed.id = l.id ∧ renewed.resource = l.resource ∧ renewed.mode = l.mode ∧
      renewed.holder = l.holder ∧ renewed.amount = l.amount := by
  unfold LeaseTable.renew at h
  dsimp only at h
  split at h
  · cases h
  next l hl =>
  cases h
  exact ⟨l, (mem_filter.mp (LeaseTable.owned_ok hl).1).1, rfl, rfl, rfl, rfl, rfl⟩

theorem renew_aside {holder : AgentId} {lease : LeaseId} {ttlSecs : Nat} :
    ∃ more, Aside (some now) Lease.holder s (s.renew holder lease ttlSecs now).1 more := by
  unfold renew
  split
  · exact ⟨[], (Passed.refl _ s).aside⟩
  · split
    · obtain ⟨_, hpass⟩ := expireLeasesAt_passed s now
      dsimp only
      split
      · exact ⟨_, hpass.aside⟩
      · split
        · exact ⟨_, hpass.aside⟩
        next renewed hr =>
        obtain ⟨_, hl, hid, hres, hmode, hholder, hamount⟩ := renew_ok (Prod.ext rfl hr)
        obtain ⟨_, haside⟩ :=
          commitLeaseActivity_renewed hl hid hres hmode hholder hamount
        split
        · next s₁ hs₁ =>
          rw [hs₁] at haside
          exact ⟨_, haside.after hpass⟩
        next s₁ hs₁ =>
        rw [hs₁] at haside
        exact ⟨_, haside.after hpass⟩
    · exact ⟨[], (Passed.refl _ s).aside⟩

/-! ## Releases -/

theorem readLedger_passed (n : Nat) (s : State) : Passed none s (readLedger n s) [] := by
  induction n generalizing s with
  | zero => exact .refl none s
  | succ _ ih => exact (storeRead_passed s "journal" fun _ => ()).trans (ih _)

/-- Dropping leases one by one, each under its own holder. -/
theorem mem_foldl_release (released : List Lease) (t : LeaseTable) (k : Lease)
    (h : ∀ l ∈ released, ∀ m ∈ t, m.id = l.id → m.holder = l.holder) :
    k ∈ released.foldl (fun t l => (t.release l.id l.holder).1) t ↔
      k ∈ t ∧ ∀ l ∈ released, k.id ≠ l.id := by
  induction released generalizing t with
  | nil => simp
  | cons l _ ih =>
    have hone : ∀ m, m ∈ (t.release l.id l.holder).1 ↔ m ∈ t ∧ m.id ≠ l.id := by
      intro m
      unfold LeaseTable.release LeaseTable.owned
      cases hget : t.get? l.id with
      | none =>
        exact (and_iff_left_of_imp fun hm => get?_eq_none.mp hget m hm).symm
      | some found =>
        obtain ⟨hfound, hid⟩ := get?_eq_some.mp hget
        have hholder := h l List.mem_cons_self found hfound hid
        simp [hholder]
    rw [List.foldl_cons, ih]
    · simp only [hone, List.mem_cons, forall_eq_or_imp, and_assoc]
    · intro m hm n hn
      exact h m (List.mem_cons_of_mem _ hm) n ((hone n).mp hn).1

theorem mem_foldl_erase {released : List Lease} {t : LeaseTable} {k : Lease} :
    k ∈ released.foldl (fun t l => t.erase l.id) t ↔ k ∈ t ∧ ∀ l ∈ released, k.id ≠ l.id := by
  induction released generalizing t with
  | nil => simp
  | cons _ _ ih =>
    rw [List.foldl_cons, ih, mem_erase]
    simp only [List.mem_cons, forall_eq_or_imp, and_assoc]

theorem readLedger_leases (n : Nat) (s : State) : (readLedger n s).leases = s.leases := by
  induction n generalizing s with
  | zero => rfl
  | succ _ ih =>
    rw [readLedger, ih]
    exact (storeRead_untouched s "journal" fun _ => ()).leases

theorem finishRelease_aside {released : List Lease} {journal : Journal}
    (hreleased : ∀ l ∈ released, l ∈ s.leases) :
    ∃ more, Aside none Lease.holder s (s.finishRelease released journal) more := by
  have hread := readLedger_passed journal.reads s
  rw [← readLedger_leases journal.reads s] at hreleased
  unfold finishRelease
  generalize readLedger journal.reads s = s₁ at hread hreleased ⊢
  have hmem := fun k => mem_foldl_release released s₁.leases k fun l hl m hm heq =>
    congrArg Lease.holder (eq_of_key_eq hm (hreleased l hl) heq)
  split
  · split
    · exact ⟨_, hread.aside⟩
    · refine ⟨_, (hread.trans (commit_id_passed _ _ ?_)).aside⟩
      simp [EventKind.ends]
  · refine ⟨_, Aside.after hread ⟨commit_waiting .., (commit_moved ..).published,
      (commit_moved ..).faults, (commit_moved ..).latched, (commit_moved ..).sound,
      commit_mirroring _ _ _ _ _ fun hsame k => ?_, sent_quiet ?_, fun l hl => ?_,
      fun l hl => ?_⟩⟩
    · rw [hmem, mem_foldl_erase, hsame]
    · intro kind hkind t
      rcases List.mem_append.mp hkind with hk | hk <;>
      · obtain ⟨_, -, rfl⟩ := List.mem_map.mp hk
        rfl
    · rw [commit_leases] at hl
      refine ⟨l, ?_, rfl, rfl, rfl, .inl rfl, rfl⟩
      split at hl
      · exact ((hmem l).mp hl).1
      · exact hl
    · rw [commit_leases]
      split
      · next hlands =>
        by_cases hkept : ∀ r ∈ released, l.id ≠ r.id
        · exact .inl ⟨l, (hmem l).mpr ⟨hl, hkept⟩, rfl, rfl, .inl rfl⟩
        · push Not at hkept
          obtain ⟨r, hr, hid⟩ := hkept
          rw [← eq_of_key_eq hl (hreleased r hr) hid] at hr
          obtain ⟨e, he, hk⟩ := exists_sent hlands
            (List.mem_append_left (journal.entry.toList.map .journalAppended)
              (List.mem_map_of_mem hr))
          exact .inr (.inr ⟨e, he, .inl hk⟩)
      · exact .inl ⟨l, hl, rfl, rfl, .inl rfl⟩

theorem release_aside {holder : AgentId} {lease : LeaseId} {journal : Journal} :
    ∃ more, Aside none Lease.holder s (s.release holder lease journal).1 more := by
  unfold release
  split
  · exact ⟨[], (Passed.refl none s).aside⟩
  · split
    · exact ⟨[], (Passed.refl none s).aside⟩
    next l hl =>
    dsimp only
    refine finishRelease_aside fun k hk => ?_
    rw [List.mem_singleton.mp hk]
    unfold LeaseTable.release at hl
    split at hl
    · cases hl
    next hown =>
    cases hl
    exact (LeaseTable.owned_ok hown).1

theorem releaseAll_aside {holder : AgentId} {onlyAutomatic : Bool} {journal : Journal} :
    ∃ more, Aside none Lease.holder s (s.releaseAll holder onlyAutomatic journal).1 more := by
  unfold releaseAll
  split
  · exact ⟨[], (Passed.refl none s).aside⟩
  · dsimp only
    refine finishRelease_aside fun k hk => ?_
    exact (LeaseTable.mem_byHolder.mp (List.mem_filter.mp hk).1).1

/-! ## Handoffs -/

namespace Handoff

variable (h : Handoff) (now : Time)

def moves (l : Lease) : Bool :=
  h.transferLeases && LeaseTable.selected h.sender h.leases now l

/-- The holder a handoff makes of a lease's. -/
def handed (l : Lease) : AgentId := if h.moves now l then h.recipient else l.holder

/-- The table a handoff makes, and the leases it moved. -/
def moved (t : LeaseTable) : LeaseTable × List Lease :=
  if h.transferLeases then t.transferSelected h.sender h.recipient h.leases now else (t, [])

variable {h now} {t : LeaseTable} {l : Lease}

theorem mem_moved_fst : l ∈ (h.moved now t).1 ↔
      (∃ m ∈ t, h.moves now m = true ∧ l = LeaseTable.handedTo h.recipient now m) ∨
        (l ∈ t ∧ h.moves now l = false) := by
  unfold moved moves
  split
  · next hm =>
    rw [hm]
    exact LeaseTable.mem_handOver
  · next hm => simp [hm]

theorem mem_moved_snd : l ∈ (h.moved now t).2 ↔
      ∃ m ∈ t, h.moves now m = true ∧ l = LeaseTable.handedTo h.recipient now m := by
  unfold moved moves
  split
  · next hm =>
    rw [LeaseTable.transferSelected, LeaseTable.handOver, List.mem_insertionSort, List.mem_map]
    simp only [List.mem_filter, hm, Bool.true_and, and_assoc, eq_comm]
    rfl
  · next hm => simp [hm]

theorem moved_snd_nodup : ((h.moved now t).2.map Lease.id).Nodup := by
  unfold moved
  split
  · rw [LeaseTable.transferSelected, LeaseTable.handOver,
      ((List.perm_insertionSort _ _).map _).nodup_iff, List.map_map]
    exact t.nodup.sublist (List.filter_sublist.map _)
  · exact List.nodup_nil

/-- Writing the moved leases over their rows does to the rows what the handoff
does to the table. -/
theorem mem_moved_rows {rows : LeaseTable} (hsame : ∀ l, l ∈ t ↔ l ∈ rows) :
    l ∈ (h.moved now t).1 ↔ l ∈ (h.moved now t).2.foldl (fun rows l => rows.insert l) rows := by
  rw [mem_foldl_insert moved_snd_nodup, mem_moved_fst, mem_moved_snd]
  refine or_congr_right ?_
  rw [← hsame]
  refine and_congr_right fun hl => ?_
  constructor
  · intro hlv x hx heq
    obtain ⟨_, hm, hmv, rfl⟩ := mem_moved_snd.mp hx
    rw [eq_of_key_eq hl hm heq, hmv] at hlv
    cases hlv
  · intro hother
    by_contra hlv
    exact hother _ (mem_moved_snd.mpr ⟨l, hl, by simpa using hlv, rfl⟩) rfl

/-- Putting every moved lease back as it was gives the table back. -/
theorem mem_moved_back {back : Lease → Lease}
    (hback : ∀ m ∈ t, h.moves now m = true → back (LeaseTable.handedTo h.recipient now m) = m) :
    l ∈ (h.moved now t).2.foldl (fun t l => t.restore (back l)) (h.moved now t).1 ↔ l ∈ t := by
  have hids : ((h.moved now t).2.map back).map Lease.id = (h.moved now t).2.map Lease.id := by
    rw [List.map_map]
    refine List.map_congr_left fun k hk => ?_
    obtain ⟨m, hm, hmv, rfl⟩ := mem_moved_snd.mp hk
    rw [Function.comp_apply, hback m hm hmv]
    rfl
  have hmem : ∀ k, k ∈ (h.moved now t).2.map back ↔ k ∈ t ∧ h.moves now k = true := by
    intro k
    rw [List.mem_map]
    constructor
    · rintro ⟨_, hk, rfl⟩
      obtain ⟨m, hm, hmv, rfl⟩ := mem_moved_snd.mp hk
      rw [hback m hm hmv]
      exact ⟨hm, hmv⟩
    · rintro ⟨hk, hkv⟩
      exact ⟨_, mem_moved_snd.mpr ⟨k, hk, hkv, rfl⟩, hback k hk hkv⟩
  have hfold := mem_foldl_insert (t := (h.moved now t).1) (b := l) (hids ▸ moved_snd_nodup)
  rw [List.foldl_map] at hfold
  refine hfold.trans ?_
  rw [hmem]
  constructor
  · rintro (⟨hl, -⟩ | ⟨hl, hother⟩)
    · exact hl
    · rcases mem_moved_fst.mp hl with ⟨m, hm, hmv, rfl⟩ | ⟨hl, -⟩
      · exact absurd rfl (hother m ((hmem m).mpr ⟨hm, hmv⟩))
      · exact hl
  · intro hl
    cases hlv : h.moves now l with
    | true => exact .inl ⟨hl, rfl⟩
    | false =>
      refine .inr ⟨mem_moved_fst.mpr (.inr ⟨hl, hlv⟩), fun x hx heq => ?_⟩
      obtain ⟨hx, hxv⟩ := (hmem x).mp hx
      rw [eq_of_key_eq hl hx heq, hxv] at hlv
      cases hlv

end Handoff

/-- The events of an accepted handoff. -/
def Handoff.kinds (h : Handoff) (now : Time) (t : LeaseTable) : List EventKind :=
  .handoffAccepted h.recipient h.checkpoint ::
    (h.moved now t).2.map (.leaseTransferred · h.sender h.recipient) ++
    h.cursor.toList.map fun (project, seq) => .journalRead h.recipient.id project seq

theorem Handoff.kinds_quiet (h : Handoff) {t : LeaseTable} :
    ∀ kind ∈ h.kinds now t, ∀ ticket, kind.ends ticket = none := by
  intro kind hkind ticket
  rcases List.mem_append.mp hkind with hk | hk
  · rcases List.mem_cons.mp hk with rfl | hk
    · rfl
    · obtain ⟨_, -, rfl⟩ := List.mem_map.mp hk
      rfl
  · obtain ⟨_, -, rfl⟩ := List.mem_map.mp hk
    rfl

section

variable (s : State) (h : Handoff) (now : Time)

/-- What a handoff writes and says. -/
def handedOver : State :=
  (State.commit { s with leases := (h.moved now s.leases).1 } "handoff acceptance"
    (h.kinds now s.leases)
    (fun rows => (h.moved now s.leases).2.foldl (fun rows l => rows.insert l) rows) id).1

/-- The table a handoff that was not written puts back. -/
def putBack : LeaseTable :=
  (h.moved now s.leases).2.foldl (fun t l => t.restore
    (((s.leases.rows.filter fun l => decide (h.transferLeases ∧ l.id ∈ h.leases)).find?
      fun b => decide (b.id = l.id)).getD { l with holder := h.sender }))
    (s.handedOver h now).leases

theorem handedOver_leases : (s.handedOver h now).leases = (h.moved now s.leases).1 := by
  refine (commit_leases ..).trans ?_
  split <;> rfl

end

theorem mem_putBack {h : Handoff} :
    l ∈ s.putBack h now ↔ l ∈ s.leases := by
  rw [putBack, handedOver_leases]
  refine Handoff.mem_moved_back fun m hm hmv => ?_
  -- A lease that moved was among those the handoff looked up before.
  have hmv' : h.transferLeases = true ∧ m.id ∈ h.leases := by
    simp only [Handoff.moves, LeaseTable.selected, Bool.and_eq_true, decide_eq_true_eq] at hmv
    exact ⟨hmv.1, hmv.2.1.2⟩
  have hfound : (s.leases.filter fun l =>
      decide (h.transferLeases ∧ l.id ∈ h.leases)).get? m.id = some m :=
    get?_eq_some.mpr ⟨mem_filter.mpr ⟨hm, by simpa using hmv'⟩, rfl⟩
  exact congrArg (Option.getD · _) hfound

/-- A handoff that lands hands the leases over; one that does not leaves the
leases it found. -/
theorem resume_cases {h : Handoff} :
    (s.lands = true ∧ (s.resume h now).1 = s.handedOver h now) ∨
    (s.lands = false ∧ ∃ t : LeaseTable, (∀ l, l ∈ t ↔ l ∈ s.leases) ∧
      (s.resume h now).1 = { s.handedOver h now with leases := t }) := by
  have hfail : (s.handedOver h now).writeFailure = none ↔ s.lands = true :=
    commit_writeFailure ..
  unfold State.resume
  dsimp only
  split
  · rename_i hnone
    exact .inl ⟨hfail.mp hnone, rfl⟩
  · rename_i error hsome
    refine .inr ⟨?_, s.putBack h now, fun l => mem_putBack, rfl⟩
    rw [← Bool.not_eq_true, ← hfail]
    exact fun hnone => Option.some_ne_none error (hsome.symm.trans hnone)

theorem resume_aside {h : Handoff} :
    ∃ more, Aside none (h.handed now) s (s.resume h now).1 more := by
  let s₁ : State := { s with leases := (h.moved now s.leases).1 }
  have h₁ : Moved s s₁ [] := .inMemory ..
  have hm : Moved s (s.handedOver h now) (s₁.sent (h.kinds now s.leases)) :=
    h₁.trans (commit_moved s₁ ..)
  have hw : (s.handedOver h now).waiting = s.waiting := commit_waiting s₁ ..
  have hq : Quiet (s₁.sent (h.kinds now s.leases)) := sent_quiet h.kinds_quiet
  rcases resume_cases with ⟨hl, heq⟩ | ⟨hl, _, ht, heq⟩
  · rw [heq]
    have hleases := s.handedOver_leases h now
    refine ⟨_, hw, hm.published, hm.faults, hm.latched, hm.sound, ?_, hq, fun l' hl' => ?_,
      fun l hl => .inl ?_⟩
    · intro instants _ hs
      refine .of_mem_iff fun l => ?_
      have hrows : (s.handedOver h now).store.leases =
          (h.moved now s.leases).2.foldl (fun rows l => rows.insert l) s.store.leases :=
        (commit_rows s₁ ..).trans (if_pos hl)
      rw [hleases, hrows]
      exact Handoff.mem_moved_rows (hs.mem_iff (lands_iff.mp hl).1)
    · rw [hleases] at hl'
      rcases Handoff.mem_moved_fst.mp hl' with ⟨m, hm, hmv, rfl⟩ | ⟨hl', -⟩
      · refine ⟨m, hm, rfl, rfl, rfl, .inr ?_, rfl⟩
        rw [Handoff.handed, if_pos hmv]
        rfl
      · exact ⟨l', hl', rfl, rfl, rfl, .inl rfl, rfl⟩
    · rw [hleases]
      cases hlv : h.moves now l with
      | true =>
        refine ⟨_, Handoff.mem_moved_fst.mpr (.inl ⟨l, hl, hlv, rfl⟩), rfl, rfl, .inr ?_⟩
        rw [Handoff.handed, if_pos hlv]
        rfl
      | false => exact ⟨l, Handoff.mem_moved_fst.mpr (.inr ⟨hl, hlv⟩), rfl, rfl, .inl rfl⟩
  · rw [heq]
    exact ⟨_, .of_mem_iff { hm with } hw hq ht
      ((commit_rows s₁ ..).trans (if_neg (Bool.eq_false_iff.mp hl)))⟩

/-! ## The fence -/

/-- A use of the coordinator row, and the event of it, if it has one. -/
theorem Aside.of_transfer (s : State) {store : Store} {published : List Event}
    (coordination : Coordination) (skipped : Bool) (seq : Nat)
    (hpublished : published = s.published ++ more) (hfaults : store.faults = s.store.faults)
    (hrows : store.leases = s.store.leases) (hquiet : Quiet more) :
    Aside none Lease.holder s
      { s with
        store := store
        coordination := coordination
        skippedWrite := skipped
        nextSeq := seq
        published := published } more :=
  ⟨rfl, hpublished, hfaults, fun h => h, fun _ h => h,
    .of_same (fun _ => Iff.rfl) hrows fun h => h, hquiet,
    fun l hl => ⟨l, hl, rfl, rfl, rfl, .inl rfl, rfl⟩,
    fun l hl => .inl ⟨l, hl, rfl, rfl, .inl rfl⟩⟩

theorem Untouched.aside (h : Untouched s s') : Aside none Lease.holder s s' [] :=
  h.passed.aside

theorem offerTransfer_aside {id : String} {successorPid : Nat} :
    ∃ more, Aside none Lease.holder s (s.offerTransfer id successorPid).1 more := by
  rcases s.offerTransfer_cases id successorPid with h | ⟨-, h⟩
  · exact ⟨[], h.aside⟩
  · rw [h]
    exact ⟨_, .of_transfer s _ _ _ rfl rfl rfl (by simp [Quiet, EventKind.ends])⟩

theorem abortTransfer_aside {reason : String} :
    ∃ more, Aside none Lease.holder s (s.abortTransfer reason).1 more := by
  unfold abortTransfer
  split
  · dsimp only
    split
    · next store htx =>
      have hop := transaction_ok htx
      rcases settleTransfer_cases hop with ⟨⟨⟩, -⟩ | ⟨-, _, -, rfl, -, rfl⟩
      exact ⟨_, .of_transfer s _ _ _ rfl rfl rfl (by simp [Quiet, EventKind.ends])⟩
    · next store htx =>
      have hop := transaction_ok htx
      rcases settleTransfer_cases hop with ⟨-, rfl⟩ | ⟨⟨⟩, -⟩
      exact ⟨[], .of_transfer s _ _ _ (List.append_nil _).symm rfl rfl (by simp [Quiet])⟩
    next store err htx =>
    rw [transaction_error htx]
    exact ⟨[], (Untouched.of_healthy s _ _).aside⟩
  · exact ⟨[], (Untouched.refl s).aside⟩

end State

namespace Service

/-! ## Steps -/

/-- The claim whose hold a step is; an attempt has a time. -/
def Op.acts : Op → Option (Nat × Option Time)
  | .attempt number now _ => some (number, some now)
  | .wake number _ => some (number, none)
  | .drop number => some (number, none)
  | _ => none

/-- Whether a step is a hold of this claim, the claim being where the hold is
taken from. -/
def Op.holds (s : State) (c : Claim) : Op → Bool
  | .attempt number _ id => decide (c.number = number) &&
      decide (c.phase = .attempting ∧ s.leases.get? id = none)
  | .wake number _ => decide (c.number = number) &&
      match c.phase with
      | .waiting .. => true
      | _ => false
  | .drop number => decide (c.number = number) && c.inFlight
  | _ => false

/-- When leases may expire in a step. -/
def Op.time : Op → Option Time
  | .attempt _ now _ => some now
  | .renew _ _ _ now => some now
  | .expire now => some now
  | _ => none

variable {c c' : Claim} {number : Nat} {op : Op} {s s' : State}

theorem Op.time_of_acts {time : Option Time} (h : op.acts = some (number, time)) :
    op.time = time := by
  cases op <;> cases h <;> rfl

/-- The holder a step that is no claim's may make of a lease's. -/
def Op.handed : Op → Lease → AgentId
  | .resume handoff now => handoff.handed now
  | _ => Lease.holder

/-- A claim that was just asked for. -/
structure Asked (s : State) (c : Claim) : Prop where
  ticket : c.guard.ticket = none
  resource : c.guard.resource = c.args.resource
  requester : c.guard.requester = c.holder
  joined : c.joined = none
  askedAt : c.askedAt = s.waiting.nextTicket

/-- What one step leaves. -/
inductive Went (w : Service) : Op → Service → Prop
  | still {op : Op} : Went w op w
  | asked {holder : AgentId} {args : ClaimArgs} {n : Nat} {c : Claim}
      (new : ∀ d ∈ w.claims, d.number ≠ c.number) (asked : Asked w.state c)
      (holder_eq : c.holder = holder) :
      Went w (.request c.number holder args)
        ⟨{ w.state with inFlight := n }, w.claims.insert c⟩
  | turn {op : Op} {time : Option Time} {c c' : Claim} {s' : State}
      (acts : op.acts = some (c.number, time)) (holds : op.holds w.state c = true)
      (mem : c ∈ w.claims) (inFlight : c.inFlight = true)
      (turn : State.Turn w.state c time s' c') : Went w op ⟨s', w.claims.insert c'⟩
  | aside {op : Op} {s' : State} {more : List Event} (acts : op.acts = none)
      (aside : State.Aside op.time op.handed w.state s' more) : Went w op ⟨s', w.claims⟩

theorem requestClaim_asked (s : State) (number : Nat) (holder : AgentId) (args : ClaimArgs) :
    (s.requestClaim number holder args).2.number = number ∧
      (s.requestClaim number holder args).2.holder = holder ∧
      Asked s (s.requestClaim number holder args).2 ∧
      ∃ n, (s.requestClaim number holder args).1 = { s with inFlight := n } := by
  unfold State.requestClaim
  split
  · exact ⟨rfl, rfl, ⟨rfl, rfl, rfl, rfl, rfl⟩, _, rfl⟩
  split
  · exact ⟨rfl, rfl, ⟨rfl, rfl, rfl, rfl, rfl⟩, _, rfl⟩
  split
  · exact ⟨rfl, rfl, ⟨rfl, rfl, rfl, rfl, rfl⟩, _, rfl⟩
  split <;> exact ⟨rfl, rfl, ⟨rfl, rfl, rfl, rfl, rfl⟩, _, rfl⟩

theorem attemptOp_turn {now : Time} {id : LeaseId} (h : attemptOp now id s c = some (s', c')) :
    c.phase = .attempting ∧ s.leases.get? id = none ∧ State.Turn s c (some now) s' c' := by
  unfold attemptOp at h
  split at h
  · next hc =>
    have hturn := State.attempt_turn s c now id hc.2
    rw [Option.some.inj h] at hturn
    exact ⟨hc.1, hc.2, hturn⟩
  · cases h

theorem wakeOp_turn {woke : Bool} (h : wakeOp woke s c = some (s', c')) :
    (∃ message heldBy, c.phase = .waiting message heldBy) ∧ State.Turn s c none s' c' := by
  unfold wakeOp at h
  split at h
  · next message heldBy hphase =>
    have hturn := State.wake_turn s c message heldBy woke
    rw [Option.some.inj h] at hturn
    exact ⟨⟨message, heldBy, hphase⟩, hturn⟩
  · cases h

theorem dropOp_turn (h : dropOp s c = some (s', c')) :
    c.inFlight = true ∧ State.Turn s c none s' c' := by
  unfold dropOp at h
  split at h
  · next hflight =>
    have hturn := State.drop_turn s c
    rw [Option.some.inj h] at hturn
    exact ⟨hflight, hturn⟩
  · cases h

theorem advance_went {w : Service} {time : Option Time}
    {hold : State → Claim → Option (State × Claim)} (hacts : op.acts = some (number, time))
    (hhold : ∀ c s' c', c.number = number → hold w.state c = some (s', c') →
      op.holds w.state c = true ∧ c.inFlight = true ∧ State.Turn w.state c time s' c') :
    Went w op (w.advance number hold) := by
  unfold advance
  split
  · exact .still
  next c hget =>
  obtain ⟨hmem, rfl⟩ := get?_eq_some.mp hget
  split
  · exact .still
  next s' c' heq =>
  obtain ⟨hholds, hflight, hturn⟩ := hhold c s' c' rfl heq
  exact .turn hacts hholds hmem hflight hturn

theorem step_went (w : Service) (op : Op) : Went w op (w.step op) := by
  cases op with
  | request number holder args =>
    rw [step]
    split
    · exact .still
    next hnone =>
    obtain ⟨hnumber, hholder, hasked, _, hn⟩ :=
      requestClaim_asked w.state number holder args
    rcases hr : w.state.requestClaim number holder args with ⟨_, _⟩
    rw [hr] at hnumber hholder hasked hn
    cases hnumber
    cases hn
    refine .asked (fun d hd heq => ?_) hasked hholder
    rw [get?_eq_some.mpr ⟨hd, heq⟩] at hnone
    exact hnone rfl
  | attempt =>
    refine advance_went rfl fun c s' c' hnumber h => ?_
    obtain ⟨hphase, hid, hturn⟩ := attemptOp_turn h
    exact ⟨by simp [Op.holds, hnumber, hphase, hid], by simp [Claim.inFlight, hphase], hturn⟩
  | wake =>
    refine advance_went rfl fun c s' c' hnumber h => ?_
    obtain ⟨⟨_, _, hphase⟩, hturn⟩ := wakeOp_turn h
    exact ⟨by simp [Op.holds, hnumber, hphase], by simp [Claim.inFlight, hphase], hturn⟩
  | drop =>
    refine advance_went rfl fun c s' c' hnumber h => ?_
    obtain ⟨hflight, hturn⟩ := dropOp_turn h
    exact ⟨by simp [Op.holds, hnumber, hflight], hflight, hturn⟩
  | renew =>
    obtain ⟨_, h⟩ := State.renew_aside
    exact .aside rfl h
  | release =>
    obtain ⟨_, h⟩ := State.release_aside
    exact .aside rfl h
  | releaseAll =>
    obtain ⟨_, h⟩ := State.releaseAll_aside
    exact .aside rfl h
  | expire now =>
    obtain ⟨_, h⟩ := State.expireLeasesAt_passed w.state now
    exact .aside rfl h.aside
  | resume =>
    obtain ⟨_, h⟩ := State.resume_aside
    exact .aside rfl h
  | offer =>
    obtain ⟨_, h⟩ := State.offerTransfer_aside
    exact .aside rfl h
  | abort =>
    obtain ⟨_, h⟩ := State.abortTransfer_aside
    exact .aside rfl h
  | env env =>
    have haside : State.Aside none Lease.holder w.state { w.state with env := env } [] :=
      ⟨rfl, (List.append_nil _).symm, rfl, fun h => h, fun _ h => h,
        .of_same (fun _ => Iff.rfl) rfl fun h => h, by simp [Quiet],
        fun l hl => ⟨l, hl, rfl, rfl, rfl, .inl rfl, rfl⟩,
        fun l hl => .inl ⟨l, hl, rfl, rfl, .inl rfl⟩⟩
    exact .aside rfl haside
  | reorder rows =>
    rw [step]
    split
    · next hperm =>
      have hm : w.state.Moved
          { w.state with leases := w.state.leases.reorder rows hperm } [] := .inMemory ..
      exact .aside rfl (.of_mem_iff hm rfl (by simp [Quiet])
        (fun l => mem_reorder (h := hperm)) rfl)
    · exact .still

/-- A hold of a claim is taken. -/
theorem step_of_holds {w : Service} (hc : c ∈ w.claims) (h : op.holds w.state c = true) :
    ∃ time s' c', op.acts = some (c.number, time) ∧ State.Turn w.state c time s' c' ∧
      w.step op = ⟨s', w.claims.insert c'⟩ := by
  have hget : w.claims.get? c.number = some c := get?_eq_some.mpr ⟨hc, rfl⟩
  cases op with
  | attempt _ now id =>
    simp only [Op.holds, Bool.and_eq_true, decide_eq_true_eq] at h
    obtain ⟨rfl, hphase, hid⟩ := h
    refine ⟨_, _, _, rfl, State.attempt_turn w.state c now id hid, ?_⟩
    simp only [step, advance, hget, attemptOp, hphase, hid, and_self, if_true]
  | wake _ woke =>
    simp only [Op.holds, Bool.and_eq_true, decide_eq_true_eq] at h
    obtain ⟨rfl, hphase⟩ := h
    split at hphase
    · next message heldBy heq =>
      refine ⟨_, _, _, rfl, State.wake_turn w.state c message heldBy woke, ?_⟩
      simp only [step, advance, hget, wakeOp, heq]
    · cases hphase
  | drop =>
    simp only [Op.holds, Bool.and_eq_true, decide_eq_true_eq] at h
    obtain ⟨rfl, hflight⟩ := h
    refine ⟨_, _, _, rfl, State.drop_turn w.state c, ?_⟩
    simp only [step, advance, hget, dropOp, hflight, if_true]
  | _ => cases h

end Service

end AgentDocker.Daemon
