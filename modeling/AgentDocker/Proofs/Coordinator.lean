import AgentDocker.Proofs.Transfers

/-!
# One coordinator

Authority over a database is split between what each process believes and one
row. The row decides: while it says `offered` nobody serves, and it leaves
`offered` once, in the hands of the one process that serves from then on.

The last section follows the same runs to their end. A process that stops
takes its belief with it and leaves the row, and a daemon that opens the
database goes by the row alone: it serves if and only if every offer in the
event table was settled, and a crash between an offer and its settlement
leaves a database nobody may write again.
-/

namespace AgentDocker.Daemon

open AgentDocker.Core Lib Keyed

namespace World

/-! ## What every run keeps -/

/-- Nobody serves while an offer is open, and at most one process does ever. -/
structure Fence (store : Store) (daemons : Keyed State.pid) : Prop where
  fenced : ∀ t, store.pendingTransfer = some t → ∀ d ∈ daemons, d.coordination ≠ .serving
  one : ∀ d ∈ daemons, ∀ e ∈ daemons, d.coordination = .serving → e.coordination = .serving → d = e

/-- The event table knows of every transfer: each was settled once at most,
and the one that is not settled is the one the row is about. -/
structure Ledger (store : Store) (drawn : List String) : Prop where
  settledOnce : ∀ id, settlements store.events id ≤ 1
  pending : ∀ t, store.pendingTransfer = some t →
    Offered store.events t.id ∧ settlements store.events t.id = 0
  unsettled : ∀ id, Offered store.events id → settlements store.events id = 0 →
    ∃ t, store.pendingTransfer = some t ∧ t.id = id
  drawn : ∀ id, Offered store.events id ∨ 0 < settlements store.events id → id ∈ drawn

structure Inv (w : World) : Prop where
  fence : Fence w.store w.daemons
  ledger : Ledger w.store w.drawn

section Act

variable {may : String → Prop} {store : Store} {daemons : Keyed State.pid}
    {drawn drawn' : List String} {d s' : State}

/-- A process acting on the database keeps the fence. -/
theorem Fence.act (h : Fence store daemons) (hd : d ∈ daemons)
    (he : Effect may { d with store := store } s') :
    Fence s'.store (daemons.insert s') := by
  have hpid : s'.pid = d.pid := he.pid
  have hother : ∀ e ∈ daemons, e.pid ≠ s'.pid → d.coordination = .serving →
      e.coordination ≠ .serving := by
    intro e hmem hne hserv hes
    rw [h.one e hmem d hd hes hserv] at hne
    exact hne hpid.symm
  have hopen : ∀ t, s'.store.pendingTransfer = some t → s'.coordination ≠ .serving ∧
      ∀ e ∈ daemons, e.pid ≠ s'.pid → e.coordination ≠ .serving := by
    intro t ht
    cases he with
    | still _ row _ _ coord =>
      rw [pendingTransfer_congr row] at ht
      exact ⟨fun hc => h.fenced t ht d hd (coord hc), fun e hmem _ => h.fenced t ht e hmem⟩
    | wrote _ serving row =>
      rw [pendingTransfer_congr row] at ht
      exact absurd serving (h.fenced t ht d hd)
    | offered _ _ _ _ _ serving _ _ coord =>
      exact ⟨by simp [coord], fun e hmem hne => hother e hmem hne serving⟩
    | readdressed _ t' _ _ pending _ _ _ coord =>
      rw [coord]
      exact ⟨h.fenced t' pending d hd, fun e hmem _ => h.fenced t' pending e hmem⟩
    | settled _ _ _ row => rw [row] at ht; cases ht
  -- A process that serves after the step served before it, or settled a
  -- transfer while nobody served.
  have hnew : s'.coordination = .serving → ∀ e ∈ daemons, e.pid ≠ s'.pid →
      e.coordination ≠ .serving := by
    intro hc e hmem hne
    cases he with
    | still _ _ _ _ coord => exact hother e hmem hne (coord hc)
    | wrote _ serving => exact hother e hmem hne serving
    | offered _ _ _ _ _ _ _ _ coord => rw [coord] at hc; cases hc
    | readdressed _ t _ _ pending | settled _ t pending => exact h.fenced t pending e hmem
  constructor
  · intro t ht e hmem
    rcases mem_insert.mp hmem with rfl | ⟨hmem, hne⟩
    · exact (hopen t ht).1
    · exact (hopen t ht).2 e hmem hne
  · intro a ha b hb hac hbc
    rcases mem_insert.mp ha with rfl | ⟨ha', hane⟩ <;>
      rcases mem_insert.mp hb with rfl | ⟨hb', hbne⟩
    · rfl
    · exact absurd hbc (hnew hac b hb' hbne)
    · exact absurd hac (hnew hbc a ha' hane)
    · exact h.one a ha' b hb' hac hbc

variable {more : List Event} {seq successor : Nat} {store' : Store} {t : Transfer}

section

variable (h : Ledger store drawn) (hle : ∀ id ∈ drawn, id ∈ drawn')
include h hle

/-- Nothing but ordinary events appended, and the row as it was. -/
theorem Ledger.ordinary (hrow : store'.pendingTransfer = store.pendingTransfer)
    (hev : store'.events = store.events ++ more) (hsettle : ∀ id, settlements more id = 0)
    (hoffer : ∀ id, ¬ Offered more id) :
    Ledger store' drawn' := by
  have hs : ∀ id, settlements store'.events id = settlements store.events id := by
    intro id
    rw [hev, settlements_append, hsettle, Nat.add_zero]
  have ho : ∀ id, Offered store'.events id ↔ Offered store.events id := by
    intro id
    rw [hev, offered_append]
    exact or_iff_left (hoffer id)
  constructor
  · intro id
    rw [hs]
    exact h.settledOnce id
  · intro t ht
    rw [hs, ho]
    exact h.pending t (hrow ▸ ht)
  · intro id
    rw [hs, ho, hrow]
    exact h.unsettled id
  · intro id
    rw [hs, ho]
    exact fun hid => hle id (h.drawn id hid)

theorem Ledger.same (hrow : store'.pendingTransfer = store.pendingTransfer)
    (hev : store'.events = store.events) : Ledger store' drawn' :=
  h.ordinary hle hrow (hev.trans (List.append_nil _).symm) (fun _ => rfl) (by simp [Offered])

/-- An open offer sent to another successor. -/
theorem Ledger.readdressed (hold : store.pendingTransfer = some t)
    (hrow : store'.pendingTransfer = some { t with successorPid := some successor })
    (hev : store'.events = store.events ++ [⟨seq, .daemonTransferReaddressed t.id successor⟩]) :
    Ledger store' drawn' := by
  have hl : Ledger { store' with transfer := store.transfer } drawn' :=
    h.ordinary hle rfl hev (fun _ => rfl) (by simp [Offered, offers])
  refine ⟨hl.settledOnce, fun u hu => ?_, fun id ho hs => ?_, hl.drawn⟩
  · rw [hrow] at hu
    cases hu
    exact hl.pending t hold
  · obtain ⟨u, hu, rfl⟩ := hl.unsettled id ho hs
    have heq : some u = some t := hu.symm.trans hold
    cases heq
    exact ⟨_, hrow, rfl⟩

/-- An offer made while none is open: every earlier one is settled, and the
new one is the pending one. -/
theorem Ledger.offered (hnew : t.id ∉ drawn) (hdrawn : t.id ∈ drawn')
    (hnone : store.pendingTransfer = none) (hrow : store'.pendingTransfer = some t)
    (hev : store'.events = store.events ++ [⟨seq, .daemonTransferOffered t.id successor⟩]) :
    Ledger store' drawn' := by
  have hs : ∀ i, settlements store'.events i = settlements store.events i := by
    intro i
    rw [hev, settlements_append]
    rfl
  have ho : ∀ i, Offered store'.events i ↔ Offered store.events i ∨ i = t.id := by
    intro i
    rw [hev, offered_append]
    refine or_congr_right ?_
    simp only [Offered, List.mem_singleton, exists_eq_left, offers, decide_eq_true_eq]
    exact eq_comm
  have hzero : settlements store.events t.id = 0 := by
    by_contra hne
    exact hnew (h.drawn t.id (.inr (Nat.pos_of_ne_zero hne)))
  constructor
  · intro i
    rw [hs]
    exact h.settledOnce i
  · intro u hu
    rw [hrow] at hu
    cases hu
    rw [hs, ho]
    exact ⟨.inr rfl, hzero⟩
  · intro i hi hi0
    rw [ho] at hi
    rw [hs] at hi0
    rcases hi with hi | rfl
    · obtain ⟨u, hu, -⟩ := h.unsettled i hi hi0
      rw [hnone] at hu
      cases hu
    · exact ⟨t, hrow, rfl⟩
  · intro i hi
    rw [ho, hs] at hi
    rcases hi with (hi | rfl) | hi
    · exact hle i (h.drawn i (.inl hi))
    · exact hdrawn
    · exact hle i (h.drawn i (.inr hi))

/-- The open offer settled, and ordinary events after that. -/
theorem Ledger.settled {e : Event} (hold : store.pendingTransfer = some t)
    (hrow : store'.pendingTransfer = none) (hsettles : ∀ id, settles id e = decide (t.id = id))
    (hev : store'.events = store.events ++ e :: more) (hmore : Ordinary more) :
    Ledger store' drawn' := by
  have hopen := h.pending t hold
  have hs : ∀ i, settlements store'.events i =
      settlements store.events i + if t.id = i then 1 else 0 := by
    intro i
    have hzero := hmore.settlements i
    rw [hev, settlements_append]
    simp only [settlements, List.countP_cons, hsettles, decide_eq_true_eq] at hzero ⊢
    omega
  have ho : ∀ i, Offered store'.events i ↔ Offered store.events i := by
    intro i
    rw [hev, offered_append]
    refine or_iff_left ?_
    rintro ⟨x, hx, hox⟩
    rcases List.mem_cons.mp hx with rfl | hx
    · have hset : settles t.id x = true := by simp [hsettles]
      rw [not_offers_of_settles hset] at hox
      cases hox
    · exact hmore.not_offered i ⟨x, hx, hox⟩
  constructor
  · intro i
    rw [hs]
    split
    · next hi => rw [← hi, hopen.2]
    · exact h.settledOnce i
  · intro u hu
    rw [hrow] at hu
    cases hu
  · intro i hi hi0
    rw [ho] at hi
    rw [hs] at hi0
    obtain ⟨u, hu, rfl⟩ := h.unsettled i hi (by omega)
    have heq : some u = some t := hu.symm.trans hold
    cases heq
    simp at hi0
  · intro i hi
    rw [ho, hs] at hi
    rcases hi with hi | hi
    · exact hle i (h.drawn i (.inl hi))
    · by_cases hti : t.id = i
      · exact hle i (h.drawn i (.inl (hti ▸ hopen.1)))
      · rw [if_neg hti] at hi
        exact hle i (h.drawn i (.inr hi))

end

/-- Whoever acts while it serves finds no offer open. -/
theorem Fence.not_pending (h : Fence store daemons) (hd : d ∈ daemons)
    (hserving : d.coordination = .serving) : store.pendingTransfer = none := by
  cases hp : store.pendingTransfer with
  | none => rfl
  | some t => exact absurd hserving (h.fenced t hp d hd)

/-- A process acting on the database keeps the event table's account. -/
theorem Ledger.act (h : Ledger store drawn) (hf : Fence store daemons) (hd : d ∈ daemons)
    (hle : ∀ id ∈ drawn, id ∈ drawn') (hmay : ∀ id, may id → id ∉ drawn ∧ id ∈ drawn')
    (he : Effect may { d with store := store } s') : Ledger s'.store drawn' := by
  cases he with
  | still _ row _ events =>
    exact h.same hle (pendingTransfer_congr row) events
  | wrote _ _ row _ events ordinary =>
    exact h.ordinary hle (pendingTransfer_congr row) events ordinary.settlements
      ordinary.not_offered
  | offered _ id _ _ hid serving row events =>
    have hfresh := hmay id hid
    exact h.offered hle hfresh.1 hfresh.2 (hf.not_pending hd serving)
      (pendingTransfer_eq_some.mpr ⟨row, rfl⟩) events
  | readdressed _ _ _ _ pending row _ events =>
    exact h.readdressed hle pending row events
  | settled _ _ pending row _ settling _ events ordinary =>
    exact h.settled hle pending row settling events ordinary

end Act

variable {env : Env} {pid : Nat} {r r' : Restored} {d : State} {f : State → State}
  {may : String → Prop} {now : Time} {t : Transfer} {w : World}

/-- Opening a database in the middle of a transfer leaves it as it was, and
the process fenced. -/
theorem restoreLease_fenced {lease : Lease} (h : restoreLease env now true r lease = .ok r') :
    r'.store = r.store := by
  unfold restoreLease at h
  split at h
  · rw [if_pos rfl] at h
    cases h
    rfl
  · split at h
    · cases h
    · cases h
      rfl

theorem foldlM_restoreLease_fenced {leases : List Lease}
    (h : leases.foldlM (restoreLease env now true) r = .ok r') : r'.store = r.store := by
  induction leases generalizing r with
  | nil => cases h; rfl
  | cons lease _ ih =>
    rw [List.foldlM_cons] at h
    cases hr : restoreLease env now true r lease with
    | error => rw [hr] at h; cases h
    | ok =>
      rw [hr] at h
      rw [ih h, restoreLease_fenced hr]

/-- What a daemon makes of the row it finds. -/
theorem withStore_coordination {store : Store} (h : withStore pid env now store = .ok d) :
    d.coordination = match store.pendingTransfer with
      | some transfer => .quiescing transfer.id
      | none => .serving := by
  unfold withStore at h
  split at h
  · cases h
  next store' pending htx =>
  have hop := transaction_ok htx
  dsimp only at h
  split at h
  · cases h
  · cases h
    cases hop
    rfl

theorem withStore_pending {store : Store} (ht : store.pendingTransfer = some t)
    (h : withStore pid env now store = .ok d) :
    d.pid = pid ∧ d.store = { store with uses := store.uses + 1 } := by
  unfold withStore at h
  split at h
  · cases h
  next store' pending htx =>
  have hop := transaction_ok htx
  cases hop
  have hp : Store.pendingTransfer { store with uses := store.uses + 1 } = some t := ht
  dsimp only at h
  rw [hp] at h
  split at h
  · cases h
  next r hr =>
  cases h
  exact ⟨rfl, foldlM_restoreLease_fenced hr⟩

theorem Fence.of_subset {store store' : Store} {daemons daemons' : Keyed State.pid}
    (h : Fence store daemons) (hrow : store'.pendingTransfer = store.pendingTransfer)
    (hle : ∀ d ∈ daemons', d.coordination = .serving → d ∈ daemons) : Fence store' daemons' where
  fenced t ht d hd hserving := h.fenced t (hrow ▸ ht) d (hle d hd hserving) hserving
  one d hd e he hds hes := h.one d (hle d hd hds) e (hle e he hes) hds hes

theorem Inv.act (h : Inv w) {drawn : List String} (pid : Nat) (hle : ∀ id ∈ w.drawn, id ∈ drawn)
    (hmay : ∀ id, may id → id ∉ w.drawn ∧ id ∈ drawn) (hf : ∀ s, Effect may s (f s)) :
    Inv { w.act pid f with drawn := drawn } := by
  unfold World.act
  cases hget : w.daemons.get? pid with
  | none =>
    exact ⟨h.fence, h.ledger.same hle rfl rfl⟩
  | some =>
    have hd := (get?_eq_some.mp hget).1
    exact ⟨h.fence.act hd (hf _), h.ledger.act h.fence hd hle hmay (hf _)⟩

theorem Inv.opened (h : Inv w) (pid : Nat) (env : Env) (now : Time) :
    Inv (w.step (.opened pid env now)) := by
  rw [step]
  split
  · next hcond =>
    rw [Bool.and_eq_true] at hcond
    obtain ⟨t, ht⟩ := Option.isSome_iff_exists.mp hcond.1
    split
    · exact ⟨h.fence.of_subset rfl fun _ hd _ => hd, h.ledger.same (fun _ hid => hid) rfl rfl⟩
    next d hopen =>
    obtain ⟨hpid, hstore⟩ := withStore_pending ht hopen
    have hc : d.coordination = .quiescing t.id := by
      rw [withStore_coordination hopen, ht]
    have hrow : d.store.pendingTransfer = w.store.pendingTransfer := by rw [hstore]; rfl
    have hev : d.store.events = w.store.events := by rw [hstore]
    have hserv : ∀ e ∈ w.daemons.insert d, e.coordination = .serving → e ∈ w.daemons := by
      intro e he hes
      rcases mem_insert.mp he with rfl | ⟨he, -⟩
      · rw [hc] at hes
        cases hes
      · exact he
    exact ⟨h.fence.of_subset hrow hserv, h.ledger.same (fun _ hid => hid) hrow hev⟩
  · exact h

/-- A process that acts without offering. -/
theorem Inv.act_quiet (h : Inv w) (hf : ∀ s, Effect (fun _ => False) s (f s)) :
    Inv (w.act pid f) := by
  have hdrawn : (w.act pid f).drawn = w.drawn := by
    unfold World.act
    split <;> rfl
  have := h.act pid (fun _ hid => hid) (fun _ hid => hid.elim) hf
  rw [← hdrawn] at this
  exact this

theorem Inv.step (h : Inv w) (op : Op) : Inv (w.step op) := by
  cases op with
  | opened pid env now => exact h.opened pid env now
  | offer pid id successor =>
    rw [World.step]
    split
    · exact h
    next hid =>
    refine h.act pid (fun i hi => List.mem_cons_of_mem _ hi) ?_
      (fun s => State.offerTransfer_effect s id successor)
    rintro i rfl
    exact ⟨hid, List.mem_cons_self⟩
  | readdress _ transfer successor =>
    exact h.act_quiet fun s => State.readdressOffer_effect s transfer successor
  | abort _ reason => exact h.act_quiet fun s => State.abortTransfer_effect s reason
  | accept _ transfer =>
    exact h.act_quiet fun s => State.acceptTransfer_effect s transfer
  | write _ what kinds rows =>
    exact h.act_quiet fun s => State.commit_effect s what kinds rows
  | stop =>
    exact ⟨h.fence.of_subset rfl fun _ hd _ => (mem_erase.mp hd).1, h.ledger⟩

theorem Inv.start (pid : Nat) (env : Env) (leases : LeaseTable)
    (faults : Nat → Option String) : Inv (start pid env leases faults) := by
  constructor
  · constructor
    · intro t ht
      cases ht
    · intro a ha b hb _ _
      rcases mem_insert.mp ha with rfl | ⟨ha, -⟩
      · rcases mem_insert.mp hb with rfl | ⟨hb, -⟩
        · rfl
        · exact absurd hb not_mem_empty
      · exact absurd ha not_mem_empty
  · constructor
    · intro id
      exact Nat.zero_le 1
    · intro t ht
      cases ht
    · rintro id ⟨e, he, -⟩
      cases he
    · rintro id (⟨e, he, -⟩ | h)
      · cases he
      · exact absurd h (Nat.lt_irrefl 0)

/-! ## One coordinator, in every run -/

/-- What holds of every moment: at most one process serves, and no transfer
was settled twice. -/
structure Coordinated (w : World) : Prop where
  one : ∀ d ∈ w.daemons, ∀ e ∈ w.daemons, d.coordination = .serving →
    e.coordination = .serving → d = e
  settledOnce : ∀ id, settlements w.store.events id ≤ 1

/-- Whether a process's acceptance of a transfer goes through. -/
def Accepts (w : World) (pid : Nat) (transfer : String) : Prop :=
  ∃ d, w.daemons.get? pid = some d ∧
    (State.acceptTransfer { d with store := w.store } transfer).2 = .ok ()

/-- The rows and events of ordinary writes. -/
def written (store : Store) : LeaseTable × List Event :=
  (store.leases, store.events.filter (!isTransfer ·.kind))

/-- What holds of every step: a transfer is accepted by the process the offer
names at that moment, and while an offer stays open nothing is written. -/
structure Orderly (w : World) (op : Op) : Prop where
  named : ∀ pid transfer, op = .accept pid transfer → w.Accepts pid transfer →
    ∃ t, w.store.pendingTransfer = some t ∧ t.id = transfer ∧ t.successorPid = some pid
  quiet : w.store.pendingTransfer.isSome = true →
    (w.step op).store.pendingTransfer.isSome = true → written (w.step op).store = written w.store

theorem accepts_named {transfer : String} (h : w.Accepts pid transfer) :
    ∃ t, w.store.pendingTransfer = some t ∧ t.id = transfer ∧ t.successorPid = some pid := by
  obtain ⟨d, hd, hacc⟩ := h
  have hpid := (get?_eq_some.mp hd).2
  unfold State.acceptTransfer at hacc
  dsimp only at hacc
  split at hacc
  · next store htx =>
    have hop := transaction_ok htx
    rcases settleTransfer_cases hop with ⟨⟨⟩, -⟩ | ⟨-, t, hpend, hid, hsucc, -⟩
    exact ⟨t, hpend, hid, hpid ▸ hsucc d.pid rfl⟩
  · cases hacc
  · cases hacc

/-- A process acting while an offer is open and stays open writes nothing:
whoever writes serves, and nobody does. -/
theorem Fence.quiet {store : Store} {daemons : Keyed State.pid} {s' : State}
    (h : Fence store daemons) (hd : d ∈ daemons) (ht : store.pendingTransfer = some t)
    (ht' : s'.store.pendingTransfer.isSome = true) (he : Effect may { d with store := store } s') :
    written s'.store = written store := by
  have hserv := h.fenced t ht d hd
  cases he with
  | still _ _ leases events => rw [written, written, leases, events]
  | wrote _ serving | offered _ _ _ _ _ serving => exact absurd serving hserv
  | readdressed _ _ _ _ _ _ leases events =>
    rw [written, written, leases, events, List.filter_append]
    simp [isTransfer]
  | settled _ _ _ row => rw [row] at ht'; cases ht'

theorem Inv.act_written (h : Inv w) (may : String → Prop) (hf : ∀ s, Effect may s (f s))
    (ht : w.store.pendingTransfer = some t)
    (ht' : (w.act pid f).store.pendingTransfer.isSome = true) :
    written (w.act pid f).store = written w.store := by
  unfold World.act at ht' ⊢
  cases hget : w.daemons.get? pid with
  | none => rfl
  | some =>
    rw [hget] at ht'
    exact h.fence.quiet (get?_eq_some.mp hget).1 ht ht' (hf _)

theorem Inv.orderly (h : Inv w) {op : Op} : Orderly w op := by
  refine ⟨fun pid transfer _ hacc => accepts_named hacc, fun hpend hpend' => ?_⟩
  obtain ⟨t, ht⟩ := Option.isSome_iff_exists.mp hpend
  cases op with
  | opened =>
    rw [World.step]
    split
    · split
      · rfl
      · next d hopen => rw [(withStore_pending ht hopen).2]; rfl
    · rfl
  | offer _ id successor =>
    rw [World.step] at hpend' ⊢
    split at hpend'
    · next hid => rw [if_pos hid]
    next hid =>
    rw [if_neg hid]
    exact h.act_written _ (fun s => State.offerTransfer_effect s id successor) ht hpend'
  | readdress _ transfer successor =>
    exact h.act_written (fun _ => False)
      (fun s => State.readdressOffer_effect s transfer successor) ht hpend'
  | abort _ reason =>
    exact h.act_written (fun _ => False) (fun s => State.abortTransfer_effect s reason) ht
      hpend'
  | accept _ transfer =>
    exact h.act_written (fun _ => False) (fun s => State.acceptTransfer_effect s transfer) ht
      hpend'
  | write _ what kinds rows =>
    exact h.act_written (fun _ => False) (fun s => State.commit_effect s what kinds rows) ht
      hpend'
  | stop => rfl

/-- One serving daemon and whatever processes open its database during a
transfer, in any interleaving, with any write failing and any process stopping
anywhere. -/
theorem single_coordinator (pid : Nat) (env : Env) (leases : LeaseTable)
    (faults : Nat → Option String) (ops : List Op) :
    Always step Coordinated (start pid env leases faults) ops ∧
      Each step Orderly (start pid env leases faults) ops := by
  have hstart := Inv.start pid env leases faults
  have halways : Always step Inv (start pid env leases faults) ops :=
    always_of_invariant hstart fun w op h => h.step op
  constructor
  · exact halways.imp fun w h => ⟨h.fence.one, h.ledger.settledOnce⟩
  · exact each_of_invariant hstart (fun w op h => h.step op) fun w op h => h.orderly

/-! ## Where a run can end -/

/-- Every transfer that was offered was settled. -/
def AllSettled (events : List Event) : Prop :=
  ∀ id, Offered events id → 0 < settlements events id

theorem Ledger.pendingTransfer_eq_none {store : Store} {drawn : List String}
    (h : Ledger store drawn) : store.pendingTransfer = none ↔ AllSettled store.events := by
  constructor
  · intro hnone id ho
    by_contra hs
    obtain ⟨t, ht, -⟩ := h.unsettled id ho (by omega)
    rw [hnone] at ht
    cases ht
  · intro hall
    cases hp : store.pendingTransfer with
    | none => rfl
    | some t =>
      obtain ⟨ho, hs⟩ := h.pending t hp
      have := hall t.id ho
      omega

/-- A daemon that opens the database a run left, with nobody else there,
serves if and only if no offer of that run was left unsettled. -/
theorem serves_iff_all_settled (pid : Nat) (env : Env) (leases : LeaseTable)
    (faults : Nat → Option String) (ops : List Op) (newcomer : Nat) (env' : Env)
    (now : Time) (d : State)
    (h : withStore newcomer env' now (run step (start pid env leases faults) ops).store =
      .ok d) :
    d.coordination = .serving ↔
      AllSettled (run step (start pid env leases faults) ops).store.events := by
  have halways : Always step Inv (start pid env leases faults) ops :=
    always_of_invariant (Inv.start pid env leases faults) fun w op h => h.step op
  rw [← halways.last.ledger.pendingTransfer_eq_none, withStore_coordination h]
  cases Store.pendingTransfer _ with
  | none | some => simp

/-- A daemon that offers its database and stops: `ops` between the two. -/
def offeredThen (ops : List Op) : World :=
  run step (start 1 .unknown .empty fun _ => none) (.offer 1 "reload" 1 :: ops ++ [.stop 1])

theorem serves_after_abort :
    ∃ d, withStore 2 .unknown 0 (offeredThen [.abort 1 "successor failed"]).store = .ok d ∧
      (d.coordination = .serving ↔
        AllSettled (offeredThen [.abort 1 "successor failed"]).store.events) :=
  ⟨_, rfl, serves_iff_all_settled 1 .unknown .empty (fun _ => none)
    (.offer 1 "reload" 1 :: [.abort 1 "successor failed"] ++ [.stop 1]) 2 .unknown 0 _ rfl⟩

/-- A stop right behind the offer: whoever opens the database alone is fenced. -/
theorem fenced_after_crash : ¬ ∀ (ops : List Op) (d : State),
      withStore 2 .unknown 0 (run step (start 1 .unknown .empty fun _ => none) ops).store =
        .ok d → d.coordination = .serving := by
  intro h
  have hserving := h [.offer 1 "reload" 1, .stop 1] _ rfl
  cases hserving

end World

end AgentDocker.Daemon
