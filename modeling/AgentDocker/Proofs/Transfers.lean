import AgentDocker.Daemon.Reload

/-!
# What the transfer functions do to the coordinator row

Every function that touches the row does one of five things to it, and
`Effect` lists them. What a whole run keeps is read off that list, so a new
way to write needs one more line there and nothing that builds on it changes.
-/

namespace AgentDocker.Daemon

open AgentDocker.Core Lib

/-- Whether an event settles a transfer. -/
def settles (id : String) (e : Event) : Bool :=
  match e.kind with
  | .daemonTransferAccepted transfer => decide (transfer = id)
  | .daemonTransferAborted transfer _ => decide (transfer = id)
  | _ => false

def offers (id : String) (e : Event) : Bool :=
  match e.kind with
  | .daemonTransferOffered transfer _ => decide (transfer = id)
  | _ => false

/-- How often a transfer was settled, by the event table. -/
def settlements (events : List Event) (id : String) : Nat := events.countP (settles id)

def Offered (events : List Event) (id : String) : Prop := ∃ e ∈ events, offers id e = true

variable {e event : Event} {events : List Event} {successor : Option Nat} {store store' : Store}
  {α : Type} {op : Store → Store × α} {transfer : Transfer} {outcome : TransferState}

theorem settles_transfer {id : String} (h : settles id e = true) :
    World.isTransfer e.kind = true := by
  unfold settles at h
  split at h <;> simp_all [World.isTransfer]

theorem offers_transfer {id : String} (h : offers id e = true) :
    World.isTransfer e.kind = true := by
  unfold offers at h
  split at h <;> simp_all [World.isTransfer]

/-- Events an ordinary write appends. -/
def Ordinary (events : List Event) : Prop := ∀ e ∈ events, World.isTransfer e.kind = false

theorem Ordinary.settlements (h : Ordinary events) (id : String) : settlements events id = 0 := by
  refine List.countP_eq_zero.mpr fun e he hs => ?_
  have := h e he
  rw [settles_transfer hs] at this
  cases this

theorem Ordinary.not_offered (h : Ordinary events) (id : String) : ¬ Offered events id := by
  rintro ⟨e, he, ho⟩
  have := h e he
  rw [offers_transfer ho] at this
  cases this

theorem settlements_append (a b : List Event) (id : String) :
    settlements (a ++ b) id = settlements a id + settlements b id :=
  List.countP_append

theorem offered_append {a b : List Event} {id : String} :
    Offered (a ++ b) id ↔ Offered a id ∨ Offered b id := by
  simp only [Offered, List.mem_append, or_and_right, exists_or]

/-! ## What a function may do to the row -/

/-- What one process may do, as far as coordination goes. `may` are the ids it
may offer. -/
inductive Effect (may : String → Prop) (s s' : State) : Prop
  | still (pid : s'.pid = s.pid) (row : s'.store.transfer = s.store.transfer)
      (leases : s'.store.leases = s.store.leases) (events : s'.store.events = s.store.events)
      (coord : s'.coordination = .serving → s.coordination = .serving)
  | wrote (pid : s'.pid = s.pid) (serving : s.coordination = .serving)
      (row : s'.store.transfer = s.store.transfer)
      (more : List Event) (events : s'.store.events = s.store.events ++ more)
      (ordinary : Ordinary more) (coord : s'.coordination = .serving)
  | offered (pid : s'.pid = s.pid) (id : String) (successor seq : Nat) (hmay : may id)
      (serving : s.coordination = .serving)
      (row : s'.store.transfer = some ⟨id, s.pid, some successor, .offered⟩)
      (events : s'.store.events = s.store.events ++ [⟨seq, .daemonTransferOffered id successor⟩])
      (coord : s'.coordination = .quiescing id)
  | readdressed (pid : s'.pid = s.pid) (t : Transfer) (successor seq : Nat)
      (pending : s.store.pendingTransfer = some t)
      (row : s'.store.pendingTransfer = some { t with successorPid := some successor })
      (leases : s'.store.leases = s.store.leases)
      (events : s'.store.events = s.store.events ++
        [⟨seq, .daemonTransferReaddressed t.id successor⟩])
      (coord : s'.coordination = s.coordination)
  | settled (pid : s'.pid = s.pid) (t : Transfer)
      (pending : s.store.pendingTransfer = some t)
      (row : s'.store.pendingTransfer = none) (e : Event)
      (settling : ∀ id, settles id e = decide (t.id = id)) (more : List Event)
      (events : s'.store.events = s.store.events ++ e :: more) (ordinary : Ordinary more)
      (coord : s'.coordination = .serving)

theorem pendingTransfer_eq_some {t : Transfer} :
    store.pendingTransfer = some t ↔ store.transfer = some t ∧ t.state = .offered := by
  unfold Store.pendingTransfer
  cases store.transfer with
  | none => simp
  | some =>
    simp only [Option.some.injEq]
    constructor
    · intro h
      split at h
      · next hu => cases h; exact ⟨rfl, hu⟩
      · cases h
    · rintro ⟨rfl, hu⟩
      rw [if_pos hu]

theorem readdressTransfer_cases {id : String} {successor : Nat} {done : Bool}
    (h : store.readdressTransfer id successor event = (store', done)) :
    (done = false ∧ store' = store) ∨
    (done = true ∧ ∃ t, store.pendingTransfer = some t ∧ t.id = id ∧ store' = { store with
        transfer := some { t with successorPid := some successor }
        events := store.events ++ [event] }) := by
  unfold Store.readdressTransfer at h
  split at h
  · cases h
    exact .inl ⟨rfl, rfl⟩
  next t ht =>
  split at h
  · cases h
    exact .inl ⟨rfl, rfl⟩
  next hcond =>
  rw [not_or, not_not, not_not] at hcond
  cases h
  exact .inr ⟨rfl, t, pendingTransfer_eq_some.mpr ⟨ht, hcond.2⟩, hcond.1, rfl⟩

theorem settleTransfer_cases {id : String} {done : Bool}
    (h : store.settleTransfer id successor outcome event = (store', done)) :
    (done = false ∧ store' = store) ∨
    (done = true ∧ ∃ t, store.pendingTransfer = some t ∧ t.id = id ∧
      (∀ pid, successor = some pid → t.successorPid = some pid) ∧
      store' = { store with
        transfer := some { t with state := outcome }
        events := store.events ++ [event] }) := by
  unfold Store.settleTransfer at h
  split at h
  · cases h
    exact .inl ⟨rfl, rfl⟩
  next t ht =>
  split at h
  · cases h
    exact .inl ⟨rfl, rfl⟩
  next hcond =>
  rw [not_or, not_not, not_not] at hcond
  split at h
  · cases h
    exact .inl ⟨rfl, rfl⟩
  next hpid =>
  cases h
  refine .inr ⟨rfl, t, pendingTransfer_eq_some.mpr ⟨ht, hcond.2⟩, hcond.1, ?_, rfl⟩
  rintro _ rfl
  simpa using hpid

theorem offerTransfer_stored {done : Bool}
    (h : store.offerTransfer transfer event = (store', done)) : store' =
      if done then { store with transfer := some transfer, events := store.events ++ [event] }
      else store := by
  unfold Store.offerTransfer at h
  split at h
  · split at h <;> cases h <;> rfl
  · cases h
    rfl

/-- A transaction that fails leaves the tables alone; one that lands is the
operation. -/
theorem transaction_cases {res : Except String α} (h : store.transaction op = (store', res)) :
    (∃ err, store.faults store.uses = some err ∧ res = .error err ∧
      store' = { store with uses := store.uses + 1 }) ∨
    (∃ a, res = .ok a ∧ op { store with uses := store.uses + 1 } = (store', a)) := by
  unfold Store.transaction at h
  split at h
  · next err hd => cases h; exact .inl ⟨err, hd, rfl, rfl⟩
  · cases h; exact .inr ⟨_, rfl, rfl⟩

theorem transaction_ok {a : α} (h : store.transaction op = (store', .ok a)) :
    op { store with uses := store.uses + 1 } = (store', a) := by
  rcases transaction_cases h with ⟨_, -, he, -⟩ | ⟨_, hb, hop⟩
  · cases he
  · cases hb
    exact hop

theorem transaction_error {err : String} (h : store.transaction op = (store', .error err)) :
    store' = { store with uses := store.uses + 1 } := by
  rcases transaction_cases h with ⟨-, -, -, hstore⟩ | ⟨_, ha, -⟩
  · exact hstore
  · cases ha

namespace State

variable {may : String → Prop}

variable {s s' : State}

theorem Untouched.effect (h : Untouched s s') : Effect may s s' :=
  .still h.pid h.transfer h.rows h.events fun hc => h.coordination ▸ hc

theorem coordination_of_not_fenced (h : s.fenced = false) : s.coordination = .serving := by
  simpa [fenced] using h

theorem numbered_kind {kinds : List EventKind} {e : Event} (he : e ∈ s.numbered kinds) :
    e.kind ∈ kinds := by
  obtain ⟨⟨_, _⟩, hmem, rfl⟩ := List.mem_map.mp he
  exact (List.mem_zipIdx hmem).2.2 ▸ List.getElem_mem _

/-- An ordinary transition, whatever rows it writes. -/
theorem commit_effect (s : State) (what : String) (kinds : List EventKind)
    (write : LeaseTable → LeaseTable) :
    Effect may s (s.commit what (kinds.filter (!World.isTransfer ·)) write id).1 := by
  rcases commit_eq s what (kinds.filter (!World.isTransfer ·)) write id with
    ⟨hl, h⟩ | ⟨-, h, -⟩
  · rw [h]
    have hserv := coordination_of_not_fenced (lands_iff.mp hl).2.1
    refine .wrote rfl hserv rfl _ rfl (fun e he => ?_) hserv
    have := List.of_mem_filter (numbered_kind he)
    simpa using this
  · rw [h]
    exact (refused_untouched s what).effect

/-- A store operation answers nothing and changes nothing, or is the operation
made by a daemon that serves. -/
theorem storeOp_cases {α : Type} {what : String} {op : Store → Store × α} {res : Option α}
    (h : s.storeOp what op = (s', res)) :
    (res = none ∧ Untouched s s') ∨
    (∃ a store, res = some a ∧ s.coordination = .serving ∧
      op { s.store with uses := s.store.uses + 1 } = (store, a) ∧
      s' = { s with store := store }) := by
  unfold storeOp storeRead at h
  cases herr : s.storageError with
  | some =>
    rw [herr] at h
    cases h
    exact .inl ⟨rfl, .refl s⟩
  | none =>
    rw [herr] at h
    simp only [Option.isSome_none, Bool.false_eq_true, if_false] at h
    split at h
    · cases h
      exact .inl ⟨rfl, herr ▸ .of_healthy s _ _⟩
    next hf =>
    cases htx : s.store.transaction op with
    | mk store' =>
      rw [htx] at h
      rcases transaction_cases htx with ⟨_, hd, rfl, rfl⟩ | ⟨a, rfl, hop⟩
      · cases h
        exact .inl ⟨rfl, .of_failure herr hd _ _⟩
      · cases h
        exact .inr ⟨a, store', rfl, coordination_of_not_fenced (by simpa using hf), hop, rfl⟩

/-- An offer that is made, by a daemon that serves; otherwise nothing happens. -/
theorem offerTransfer_cases (s : State) (id : String) (successor : Nat) :
    Untouched s (s.offerTransfer id successor).1 ∨
    (s.coordination = .serving ∧ (s.offerTransfer id successor).1 = { s with
      store := { s.store with
        uses := s.store.uses + 1
        transfer := some ⟨id, s.pid, some successor, .offered⟩
        events := s.store.events ++ [⟨s.nextSeq, .daemonTransferOffered id successor⟩] }
      nextSeq := s.nextSeq + 1
      published := s.published ++ [⟨s.nextSeq, .daemonTransferOffered id successor⟩]
      coordination := .quiescing id }) := by
  unfold offerTransfer
  split
  · exact .inl (.refl s)
  split
  · exact .inl (.refl s)
  split
  · exact .inl (.refl s)
  dsimp only
  rcases hop : s.storeOp "transfer offer" _ with ⟨s', res⟩
  rcases storeOp_cases hop with ⟨rfl, h⟩ | ⟨offered, _, rfl, hserv, hoffer, rfl⟩
  · exact .inl h
  rw [offerTransfer_stored hoffer]
  cases offered with
  | true => exact .inr ⟨hserv, rfl⟩
  | false => exact .inl (.of_healthy s _ _)

theorem offerTransfer_effect (s : State) (id : String) (successor : Nat) :
    Effect (· = id) s (s.offerTransfer id successor).1 := by
  rcases s.offerTransfer_cases id successor with h | ⟨hserv, h⟩
  · exact h.effect
  · rw [h]
    exact .offered rfl id successor _ rfl hserv rfl rfl rfl

theorem readdressOffer_effect (s : State) (transfer : String) (successor : Nat) :
    Effect may s (s.readdressOffer transfer successor).1 := by
  unfold readdressOffer
  split
  · next current _ =>
    split
    · exact (Untouched.refl s).effect
    · dsimp only
      split
      · next store htx =>
        have hop := transaction_ok htx
        rcases readdressTransfer_cases hop with ⟨⟨⟩, -⟩ | ⟨-, t, hpend, rfl, rfl⟩
        have hstate := (pendingTransfer_eq_some.mp hpend).2
        exact .readdressed rfl t successor s.nextSeq hpend
          (pendingTransfer_eq_some.mpr ⟨rfl, hstate⟩) rfl rfl rfl
      · next store htx =>
        have hop := transaction_ok htx
        rcases readdressTransfer_cases hop with ⟨-, rfl⟩ | ⟨⟨⟩, -⟩
        exact .still rfl rfl rfl rfl fun h => h
      next store err htx =>
      rw [transaction_error htx]
      exact .still rfl rfl rfl rfl fun h => h
  · exact (Untouched.refl s).effect

theorem pendingTransfer_settled {store : Store} {t : Transfer} {outcome : TransferState}
    (ht : store.transfer = some { t with state := outcome }) (ho : outcome ≠ .offered) :
    store.pendingTransfer = none := by
  unfold Store.pendingTransfer
  rw [ht]
  exact if_neg ho

theorem abortTransfer_effect (s : State) (reason : String) :
    Effect may s (s.abortTransfer reason).1 := by
  unfold abortTransfer
  split
  · next transfer hq =>
    dsimp only
    split
    · next store htx =>
      have hop := transaction_ok htx
      rcases settleTransfer_cases hop with ⟨⟨⟩, -⟩ | ⟨-, t, hpend, rfl, -, rfl⟩
      exact .settled rfl t hpend (pendingTransfer_settled rfl (by simp))
        ⟨s.nextSeq, .daemonTransferAborted t.id reason⟩ (fun id => rfl) [] rfl
        (fun _ he => absurd he List.not_mem_nil) rfl
    · next store htx =>
      have hop := transaction_ok htx
      rcases settleTransfer_cases hop with ⟨-, rfl⟩ | ⟨⟨⟩, -⟩
      exact .still rfl rfl rfl rfl fun h => by cases h
    next store err htx =>
    rw [transaction_error htx]
    exact .still rfl rfl rfl rfl fun h => h
  · exact (Untouched.refl s).effect

/-- What the recovery writes of a daemon that serves leave: the row as it was,
and ordinary events behind the ones there were. -/
structure Recovered (s s' : State) : Prop where
  row : s'.store.transfer = s.store.transfer
  coord : s'.coordination = .serving
  pid : s'.pid = s.pid
  events : ∃ more, s'.store.events = s.store.events ++ more ∧ Ordinary more

theorem Recovered.of_untouched (hserv : s.coordination = .serving) (h : Untouched s s') :
    Recovered s s' where
  row := h.transfer
  coord := h.coordination.trans hserv
  pid := h.pid
  events := ⟨[], by rw [h.events, List.append_nil], fun _ he => absurd he List.not_mem_nil⟩

theorem Recovered.trans {s'' : State} (h : Recovered s s') (h' : Recovered s' s'') :
    Recovered s s'' where
  row := h'.row.trans h.row
  coord := h'.coord
  pid := h'.pid.trans h.pid
  events := by
    obtain ⟨more, hev, hord⟩ := h.events
    obtain ⟨more', hev', hord'⟩ := h'.events
    refine ⟨more ++ more', by rw [hev', hev, List.append_assoc], fun e he => ?_⟩
    rcases List.mem_append.mp he with he | he
    · exact hord e he
    · exact hord' e he

theorem runDeferred_recovered (writes : List DeferredWrite) (s : State)
    (hserv : s.coordination = .serving) : Recovered s (runDeferred writes s) := by
  induction writes generalizing s with
  | nil => exact .of_untouched hserv (.refl s)
  | cons w _ ih =>
    have hkind : World.isTransfer w.kind = false := by
      unfold DeferredWrite.kind
      split <;> rfl
    rw [runDeferred]
    split
    · next s' hp => exact .of_untouched hserv (persist_not_committed hp (by simp))
    next s' p _ hp =>
    have hstep : Recovered s { s' with nextSeq := s'.nextSeq + 1 } := by
      by_cases hc : p = .committed
      · rw [hc] at hp
        rw [persist_committed hp]
        refine ⟨rfl, hserv, rfl, [⟨s.nextSeq, w.kind⟩], rfl, fun e he => ?_⟩
        rw [List.mem_singleton.mp he]
        exact hkind
      · have hu := persist_not_committed hp hc
        exact { Recovered.of_untouched hserv hu with }
    exact hstep.trans (ih _ hstep.coord)

theorem acceptTransfer_effect (s : State) (transfer : String) :
    Effect may s (s.acceptTransfer transfer).1 := by
  unfold acceptTransfer
  dsimp only
  split
  · next store htx =>
    have hop := transaction_ok htx
    rcases settleTransfer_cases hop with ⟨⟨⟩, -⟩ | ⟨-, t, hpend, rfl, -, rfl⟩
    have hrec := runDeferred_recovered s.deferredRecovery
      { s with
        store := { s.store with
          uses := s.store.uses + 1
          transfer := some { t with state := .accepted }
          events := s.store.events ++ [⟨s.nextSeq, .daemonTransferAccepted t.id⟩] }
        nextSeq := s.nextSeq + 1
        published := s.published ++ [⟨s.nextSeq, .daemonTransferAccepted t.id⟩]
        coordination := .serving
        deferredRecovery := [] } rfl
    obtain ⟨more, hev, hord⟩ := hrec.events
    refine .settled hrec.pid t hpend (pendingTransfer_settled hrec.row (by simp))
      ⟨s.nextSeq, .daemonTransferAccepted t.id⟩ (fun id => rfl) more ?_ hord hrec.coord
    rw [hev, List.append_assoc]
    rfl
  · next store htx =>
    have hop := transaction_ok htx
    rcases settleTransfer_cases hop with ⟨-, rfl⟩ | ⟨⟨⟩, -⟩
    exact .still rfl rfl rfl rfl fun h => h
  next store err htx =>
  rw [transaction_error htx]
  exact .still rfl rfl rfl rfl fun h => h

end State

theorem pendingTransfer_congr {a b : Store} (h : a.transfer = b.transfer) :
    a.pendingTransfer = b.pendingTransfer := by
  unfold Store.pendingTransfer
  rw [h]

theorem not_offers_of_settles {id id' : String} (h : settles id e = true) :
    offers id' e = false := by
  unfold settles at h
  unfold offers
  split at h
  · next hk => rw [hk]
  · next hk => rw [hk]
  · cases h

theorem Effect.pid {may : String → Prop} {s s' : State} (h : Effect may s s') :
    s'.pid = s.pid := by
  cases h <;> assumption

end AgentDocker.Daemon
