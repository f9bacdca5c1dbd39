import AgentDocker.Daemon.Bindings
import AgentDocker.Lib.Runs

/-!
# One consumer of a queue

A conversation of a configuration is bound by one record at most. No request binds
a record to a thread that another record has, and a binding that is changed stays
with its thread: the next controller, an upgrade, a resumption and every note of
the supervision keep it.

A binding also keeps its token. A request that shows a token to a bound record is
answered only where the token opens the binding, and a refusal changes nothing, so
a controller whose token is another one is out. Under the same token one
controller follows another only where the first does not run any more.

Every request writes one record at most, and `Rebinds` says what it may make of
that record's binding. The invariants follow from that alone.
-/

namespace AgentDocker.Daemon.Inputs

open AgentDocker.Core Lib Keyed

variable {digest : String → String} {host : Host} {shown : Set String}
variable {s s' : Inputs} {record w : InputRecord} {a : InputAnswer}
variable {reference : AgentId} {provider : ProviderGeneration} {controller : ProcessIdentity}
variable {launch : Option ControllerLaunch} {messages : List MessageId} {now : Time}

theorem pure_state {b : InputAnswer} {s₀ : Inputs}
    (h : (pure (b, s₀) : Except InputRefusal (InputAnswer × Inputs)) = .ok (a, s')) : s' = s₀ :=
  (congrArg Prod.snd (pure_eq_ok.mp h)).symm

theorem find_mem (h : s.find reference = some record) : record ∈ s.records :=
  (get?_eq_some.mp h).1

/-! ## What may become of a binding -/

/-- The binding stays with its thread and its token, and with its controller as long as
that runs. -/
structure KeepsConsumer (running : ProcessIdentity → Bool) (b b' : InputBinding) : Prop where
  thread : b'.provider.thread = b.provider.thread
  token : b'.tokenSha256 = b.tokenSha256
  controller : b'.controller = b.controller ∨ running b.controller = false

inductive Rebinds (digest : String → String) (shown : Set String) (running : ProcessIdentity → Bool)
    (s : Inputs) (record : InputRecord) : Option InputBinding → Prop
  | released : Rebinds digest shown running s record none
  | kept {b b' : InputBinding} (hbound : record.inputBinding = some b)
      (hkeeps : KeepsConsumer running b b') : Rebinds digest shown running s record (some b')
  /-- A token is shown, and no other record has the thread. -/
  | made {b' : InputBinding} (hfree : record.inputBinding = none)
      (hother : ∀ r ∈ s.records, r.id ≠ record.id → r.boundTo b'.provider.thread = false)
      (htoken : ∃ t ∈ shown, b'.tokenSha256 = digest t) :
      Rebinds digest shown running s record (some b')

/-- A request leaves the records, apart from new ones and from one that it writes. -/
inductive Writes (digest : String → String) (shown : Set String) (running : ProcessIdentity → Bool)
    (s : Inputs) : Inputs → Prop
  | left {s' : Inputs} (hleft : ∀ r ∈ s'.records, r ∈ s.records ∨ r.inputBinding = none) :
      Writes digest shown running s s'
  | wrote {s' : Inputs} {record w : InputRecord} (hmem : record ∈ s.records)
      (hid : record.id = w.id) (hbinds : Rebinds digest shown running s record w.inputBinding)
      (hwrote : ∀ r ∈ s'.records, r = w ∨ r ∈ s.records) : Writes digest shown running s s'

theorem Writes.refl : Writes digest shown host.running s s :=
  .left fun _ hr => .inl hr

theorem Writes.put (hmem : record ∈ s.records) (hid : record.id = w.id)
    (hbinds : Rebinds digest shown host.running s record w.inputBinding) :
    Writes digest shown host.running s (s.put w) :=
  .wrote hmem hid hbinds fun _ hr => (mem_insert.mp hr).imp id And.left

/-- A binding that is changed in place keeps its consumer if the change does. -/
theorem Rebinds.map {f : InputBinding → InputBinding}
    (hf : ∀ b, KeepsConsumer host.running b (f b)) :
    Rebinds digest shown host.running s record (record.inputBinding.map f) := by
  cases hbound : record.inputBinding with
  | none => exact .released
  | some b => exact .kept hbound (hf b)

theorem Rebinds.same : Rebinds digest shown host.running s record record.inputBinding := by
  have h : Rebinds digest shown host.running s record (record.inputBinding.map id) :=
    .map fun b => ⟨rfl, rfl, .inl rfl⟩
  rwa [Option.map_id, id] at h

/-- The token, where one is shown, opens the record's binding, where it has one. -/
def Opens (digest : String → String) (record : InputRecord) (token : Option String) : Prop :=
  ∀ b, record.inputBinding = some b → ∀ t, token = some t → b.tokenSha256 = digest t

variable {force : Bool} {result : Except InputRefusal (InputAnswer × Inputs)}
  {b b' binding : InputBinding} {r : InputRecord} {op : Op} {running : ProcessIdentity → Bool}
  {t : String}

/-- A request to a record that the token, where one is shown, opens. -/
def Lets (digest : String → String) (shown : Set String) (running : ProcessIdentity → Bool)
    (s : Inputs) (reference : AgentId) (token : Option String) (s' : Inputs) : Prop :=
  ∃ record, s.find reference = some record ∧ Opens digest record token ∧
    Writes digest shown running s s'

theorem Lets.writes {token : Option String}
    (h : Lets digest shown host.running s reference token s') :
    Writes digest shown host.running s s' :=
  h.elim fun _ hlets => hlets.2.2

theorem tokenSha256_of_accepts {value : String} (h : b.acceptsDigest value = true) :
    b.tokenSha256 = value := by
  rw [InputBinding.acceptsDigest, Bool.and_eq_true, decide_eq_true_eq, decide_eq_true_eq] at h
  exact h.2

theorem Opens.of_free {token : Option String} (h : record.inputBinding = none) :
    Opens digest record token := by
  intro b hb
  rw [h] at hb
  cases hb

theorem Opens.of_bound (hbound : record.inputBinding = some b) (h : b.tokenSha256 = digest t) :
    Opens digest record (some t) := by
  intro b' hb' t' ht'
  rw [hbound] at hb'
  cases hb'
  cases ht'
  exact h

/-! ## Binding -/

theorem keepBinding_ok {resumed : Bool}
    (h : s.keepBinding host record binding resumed = .ok (a, s')) :
    ∃ b', b'.provider = binding.provider ∧ b'.tokenSha256 = binding.tokenSha256 ∧
      s' = s.put { record with inputBinding := some b' } := by
  rw [keepBinding] at h
  split at h
  · cases h
  · simp only [require_bind_ok] at h
    exact ⟨{ binding with uncertain := stillQueued (s.inboxes record.id) binding.uncertain },
      rfl, rfl, pure_state h.2⟩

theorem bindAgain_ok {existing : InputBinding} {token : String}
    (h : s.bindAgain digest host record existing provider controller token launch now =
      .ok (a, s')) :
    existing.tokenSha256 = digest token ∧ (s' = s ∨ ∃ b', KeepsConsumer host.running existing b' ∧
        s' = s.put { record with inputBinding := some b' }) := by
  simp only [bindAgain, require_bind_ok] at h
  obtain ⟨haccepts, _, _, h⟩ := h
  refine ⟨tokenSha256_of_accepts haccepts, ?_⟩
  split at h
  · exact .inl (pure_state h)
  · simp only [require_bind_ok, Bool.not_eq_true'] at h
    obtain ⟨hended, h⟩ := h
    obtain ⟨b', hprovider, htoken, hs⟩ := keepBinding_ok h
    exact .inr ⟨b', ⟨congrArg ProviderGeneration.thread hprovider, htoken, .inr hended⟩, hs⟩

theorem bindInput_ok {token : String} (hshown : token ∈ shown)
    (h : s.bindInput digest host reference provider controller token launch now = .ok (a, s')) :
    Lets digest shown host.running s reference (some token) s' := by
  rw [bindInput] at h
  split at h
  · cases h
  next record hfind =>
  simp only [require_bind_ok] at h
  obtain ⟨_, _, _, _, _, _, _, _, _, h⟩ := h
  split at h
  · cases h
  next helsewhere =>
  refine ⟨record, hfind, ?_⟩
  split at h
  · next hfree =>
    obtain ⟨_, hprovider, htoken, hs⟩ := keepBinding_ok h
    refine ⟨.of_free hfree, ?_⟩
    rw [hs]
    refine .put (find_mem hfind) rfl (.made hfree (fun r hr hid => ?_) ⟨token, hshown, htoken⟩)
    have hnone := List.find?_eq_none.mp helsewhere r hr
    rw [hprovider, ← Bool.not_eq_true]
    simpa [hid] using hnone
  next existing hbound =>
  obtain ⟨htoken, hs⟩ := bindAgain_ok h
  refine ⟨.of_bound hbound htoken, ?_⟩
  rcases hs with hs | ⟨_, hkeeps, hs⟩
  · rw [hs]
    exact .refl
  · rw [hs]
    exact .put (find_mem hfind) rfl (.kept hbound hkeeps)

theorem upgradeController_ok {previous launch : ControllerLaunch} {token : String}
    (h : s.upgradeController digest host reference provider controller previous launch token now =
      .ok (a, s')) :
    Lets digest shown host.running s reference (some token) s' := by
  rw [upgradeController] at h
  split at h
  · cases h
  next record hfind =>
  simp only [require_bind_ok] at h
  obtain ⟨_, h⟩ := h
  split at h
  · cases h
  next existing hbound =>
  simp only [require_bind_ok, Bool.and_eq_true] at h
  obtain ⟨⟨_, haccepts⟩, _, _, h⟩ := h
  refine ⟨record, hfind, ?_⟩
  refine ⟨.of_bound hbound (tokenSha256_of_accepts haccepts), ?_⟩
  split at h
  · rw [pure_state h]
    exact .refl
  · simp only [require_bind_ok] at h
    obtain ⟨_, _, _, _, _, h⟩ := h
    split at h
    · cases h
    · simp only [require_bind_ok] at h
      rw [pure_state h.2]
      exact .put (find_mem hfind) rfl (.kept hbound ⟨rfl, rfl, .inl rfl⟩)

theorem unbindInput_ok {token : Option String}
    (h : s.unbindInput digest host reference token force = .ok (a, s')) :
    Lets digest shown host.running s reference token s' := by
  rw [unbindInput] at h
  split at h
  · cases h
  next record hfind =>
  refine ⟨record, hfind, ?_⟩
  split at h
  · next hfree =>
    rw [pure_state h]
    exact ⟨.of_free hfree, .refl⟩
  next binding hbound =>
  simp only [bind_eq_ok, require_ok, exists_const] at h
  obtain ⟨_, hopens, _, h⟩ := h
  rw [pure_state h]
  refine ⟨?_, .put (find_mem hfind) rfl .released⟩
  cases token with
  | none =>
    intro b hb t ht
    cases ht
  | some => exact .of_bound hbound (tokenSha256_of_accepts (require_ok.mp hopens))

theorem transitionBinding_ok {id : AgentId} {expected : InputBinding} {note : ControllerNote}
    (h : s.transitionBinding host id expected note = .ok (a, s')) :
    Writes digest shown host.running s s' := by
  rw [transitionBinding] at h
  split at h
  · cases h
  next record hget =>
  simp only [require_bind_ok, decide_eq_true_eq] at h
  obtain ⟨hbound, _, h⟩ := h
  have hmem := (get?_eq_some.mp hget).1
  rw [pure_state h]
  cases note <;> exact .put hmem rfl (.kept hbound ⟨rfl, rfl, .inl rfl⟩)

theorem retryController_ok (h : s.retryController host reference now = .ok (a, s')) :
    Writes digest shown host.running s s' := by
  rw [retryController] at h
  split at h
  · cases h
  split at h
  · cases h
  simp only [require_bind_ok] at h
  exact transitionBinding_ok h.2.2.2

/-! ## Resuming -/

theorem joined_records {caller canonical : InputRecord} {queue : List Envelope}
    (h : r ∈ (s.joined caller canonical queue).records) : r = canonical ∨ r ∈ s.records := by
  rcases mem_insert.mp h with h | ⟨h, _⟩
  · exact .inl h
  · right
    split at h
    · exact (mem_erase.mp h).1
    · exact h

theorem resumeInput_ok {predecessor : AgentId} {launch : ControllerLaunch}
    (h : s.resumeInput host reference predecessor provider launch now = .ok (a, s')) :
    Writes digest shown host.running s s' := by
  simp only [resumeInput, require_bind_ok] at h
  obtain ⟨_, h⟩ := h
  split at h
  · next known hknown =>
    rw [resumeAgain] at h
    split at h
    · split at h
      · rw [pure_state h]
        exact .refl
      · cases h
    · cases h
  split at h
  · cases h
  simp only [require_bind_ok] at h
  obtain ⟨_, _, _, _, _, h⟩ := h
  split at h
  · cases h
  next prior hprior =>
  split at h
  · cases h
  next binding hbound =>
  simp only [require_bind_ok, Bool.and_eq_true, decide_eq_true_eq] at h
  obtain ⟨⟨⟨_, hthread⟩, _⟩, _, h⟩ := h
  split at h
  · cases h
  simp only [require_bind_ok] at h
  obtain ⟨_, _, _, _, h⟩ := h
  split at h
  · cases h
  simp only [require_bind_ok] at h
  rw [pure_state h.2]
  refine .wrote (find_mem hprior) ?_ ?_ fun r hr => joined_records hr
  · rfl
  · exact .kept hbound ⟨hthread.symm, rfl, .inl rfl⟩

/-! ## Reading and reporting -/

theorem bindingFor_ok {token : Option String} {bound : Bool}
    (h : bindingFor digest record token = .ok bound) : Opens digest record token := by
  intro b hb t ht
  subst ht
  rw [bindingFor, hb] at h
  simp only [require_bind_ok] at h
  exact tokenSha256_of_accepts h.1

theorem ackInbox_records {id : AgentId} (h : s.ackInbox host id messages = .ok s') :
    s'.records = s.records := by
  rw [ackInbox] at h
  split at h
  · simp only [bind_eq_ok, require_ok, pure_eq_ok, exists_const] at h
    rw [← h.2]
  · rw [pure_eq_ok] at h
    rw [h]

/-- The bookkeeping of a state with the same records. -/
theorem forgetDelivered_writes {acked : Inputs} (hacked : acked.records = s.records)
    (hmem : record ∈ s.records) :
    Writes digest shown host.running s (acked.forgetDelivered host record messages).2 := by
  have hleft : Writes digest shown host.running s acked := .left fun r hr => .inl (hacked ▸ hr)
  rw [forgetDelivered]
  split
  · exact hleft
  · split
    · have hid : record.id = (delivered record messages).id := rfl
      refine .wrote hmem hid (.map fun _ => ⟨rfl, rfl, .inl rfl⟩) fun r hr => ?_
      rw [← hacked]
      exact (mem_insert.mp hr).imp id And.left
    · exact hleft

theorem boundRead_ok {token : String}
    (h : s.boundRead digest host reference messages token = .ok (a, s')) :
    Lets digest shown host.running s reference (some token) s' := by
  rw [boundRead] at h
  split at h
  · cases h
  next record hfind =>
  simp only [bind_eq_ok] at h
  obtain ⟨_, hopens, acked, hacked, h⟩ := h
  refine ⟨record, hfind, ?_⟩
  refine ⟨bindingFor_ok hopens, ?_⟩
  -- three answers, and the same state behind each
  generalize hkept : (if messages = [] then (true, acked)
    else acked.forgetDelivered host record messages) = kept at h
  have hs : s' = kept.2 := by
    split at h
    · exact pure_state h
    · split at h
      · exact pure_state h
      · exact pure_state h
  rw [hs, ← hkept]
  split
  · exact .left fun r hr => .inl (ackInbox_records hacked ▸ hr)
  · exact forgetDelivered_writes (ackInbox_records hacked) (find_mem hfind)

theorem providerInbox_ok {token : Option String}
    (h : s.providerInbox digest host reference messages token = .ok (a, s')) :
    Lets digest shown host.running s reference token s' := by
  rw [providerInbox.eq_def] at h
  split at h
  · cases h
  next record hfind =>
  split at h
  · split at h
    · exact boundRead_ok h
    · cases h
  next hfree =>
  simp only [bind_eq_ok, require_ok, exists_const] at h
  obtain ⟨_, _, hacked, h⟩ := h
  rw [pure_state h]
  exact ⟨record, hfind, .of_free (Option.not_isSome_iff_eq_none.mp hfree),
    .left fun r hr => .inl (ackInbox_records hacked ▸ hr)⟩

theorem reportInput_ok {processStartedAt observedAt : Time} {report : InputReport}
    {token : Option String}
    (h : s.reportInput digest host reference processStartedAt observedAt report token now =
      .ok (a, s')) :
    Lets digest shown host.running s reference token s' := by
  rw [reportInput] at h
  split at h
  · cases h
  next record hfind =>
  simp only [bind_eq_ok, require_ok, exists_const] at h
  obtain ⟨_, hopens, _, _, _, _, h⟩ := h
  refine ⟨record, hfind, ?_⟩
  refine ⟨bindingFor_ok hopens, ?_⟩
  split at h
  · rw [pure_state h]
    exact .refl
  split at h
  · rw [pure_state h]
    exact .refl
  · simp only [require_bind_ok] at h
    rw [pure_state h.2.2]
    exact .put (find_mem hfind) rfl .same

/-- Offers change what is uncertain, never who consumes. -/
theorem foldl_noteOffer (offers : List MessageId) (record : InputRecord) :
    (offers.foldl noteOffer record).id = record.id ∧
      ∃ f : InputBinding → InputBinding, (∀ b, KeepsConsumer running b (f b)) ∧
        (offers.foldl noteOffer record).inputBinding = record.inputBinding.map f := by
  induction offers generalizing record with
  | nil => exact ⟨rfl, id, fun b => ⟨rfl, rfl, .inl rfl⟩, by rw [Option.map_id]; rfl⟩
  | cons m _ ih =>
    obtain ⟨hid, f, hf, hbinding⟩ := ih (noteOffer record m)
    refine ⟨hid, fun b => f { b with
      uncertain := if m ∈ b.uncertain then b.uncertain else b.uncertain ++ [m] }, fun b => ?_, ?_⟩
    · obtain ⟨hthread, htoken, hcontroller⟩ := hf { b with
        uncertain := if m ∈ b.uncertain then b.uncertain else b.uncertain ++ [m] }
      exact ⟨hthread, htoken, hcontroller⟩
    · rw [List.foldl_cons, hbinding, noteOffer, Option.map_map]
      rfl

theorem noteLegacyOffers_writes {id : AgentId} :
    Writes digest shown host.running s (s.noteLegacyOffers host id messages) := by
  rw [noteLegacyOffers]
  split
  · exact .refl
  next record hget =>
  split
  · exact .refl
  split
  · obtain ⟨hid, _, hf, hbinding⟩ := foldl_noteOffer
      (stillQueued (s.inboxes id) messages)
      { record with legacyOffers := stillQueued (s.inboxes id) record.legacyOffers }
    refine .put (get?_eq_some.mp hget).1 hid.symm ?_
    rw [offered, hbinding]
    exact .map hf
  · exact .refl

/-! ## Every request -/

theorem register_writes : Writes digest shown host.running s (s.register record) := by
  rw [register]
  split
  · exact .refl
  · refine .left fun r hr => ?_
    rcases mem_insert.mp hr with rfl | ⟨hr, _⟩
    · exact .inr rfl
    · exact .inl hr

theorem observe_writes {status : AgentStatus} :
    Writes digest shown host.running s (s.observe reference status) := by
  rw [observe]
  split
  · exact .refl
  · next record hfind => exact .put (find_mem hfind) rfl .same

theorem remove_writes : Writes digest shown host.running s (s.remove reference) :=
  .left fun _ hr => .inl (mem_erase.mp hr).1

theorem settle_cases : (∃ why, s.settle result = (.refused why, s)) ∨
      ∃ a s', result = .ok (a, s') ∧ s.settle result = (a, s') := by
  cases result with
  | error why => exact .inl ⟨why, rfl⟩
  | ok answered => exact .inr ⟨answered.1, answered.2, rfl, rfl⟩

theorem settle_writes (h : ∀ a s', result = .ok (a, s') → Writes digest shown host.running s s') :
    Writes digest shown host.running s (s.settle result).2 := by
  rcases settle_cases with ⟨_, hs⟩ | ⟨a, s', hok, hs⟩
  · rw [hs]
    exact .refl
  · rw [hs]
    exact h a s' hok

theorem call_writes (hshown : ∀ p, op.token = some p → p.2 ∈ shown) :
    Writes digest shown host.running s (s.call digest host op).2 := by
  cases op with
  | register => exact register_writes
  | observe => exact observe_writes
  | queue => exact .left fun r hr => .inl hr
  | remove => exact remove_writes
  | offer => exact noteLegacyOffers_writes
  | bind =>
    exact settle_writes fun a s' h => (bindInput_ok (hshown _ rfl) h).writes
  | upgrade =>
    exact settle_writes fun a s' h => (upgradeController_ok h).writes
  | unbind => exact settle_writes fun a s' h => (unbindInput_ok h).writes
  | resume =>
    exact settle_writes fun a s' h => resumeInput_ok h
  | supervise => exact settle_writes fun a s' h => transitionBinding_ok h
  | retry => exact settle_writes fun a s' h => retryController_ok h
  | read => exact settle_writes fun a s' h => (providerInbox_ok h).writes
  | report =>
    exact settle_writes fun a s' h => (reportInput_ok h).writes

theorem settle_refused {token : Option String} (hfind : s.find reference = some record)
    (h : ∀ a s', result = .ok (a, s') → Lets digest Set.univ host.running s reference token s') :
    Opens digest record token ∨ ∃ why, s.settle result = (.refused why, s) := by
  rcases settle_cases with hs | ⟨a, s', hok, _⟩
  · exact .inr hs
  · obtain ⟨_, hr, hopens, _⟩ := h a s' hok
    rw [hfind] at hr
    cases hr
    exact .inl hopens

/-- A request that shows a token is refused, and changes nothing, unless the token opens
the binding. -/
theorem call_refused (htoken : op.token = some (reference, t))
    (hfind : s.find reference = some record) :
    Opens digest record (some t) ∨ ∃ why, s.call digest host op = (.refused why, s) := by
  cases op with
  | register | observe | queue | remove | offer | resume | supervise | retry => cases htoken
  | bind =>
    cases htoken
    exact settle_refused hfind fun a s' h => bindInput_ok (Set.mem_univ _) h
  | upgrade =>
    cases htoken
    exact settle_refused hfind fun a s' h => upgradeController_ok h
  | unbind =>
    obtain ⟨_, rfl, hp⟩ := Option.map_eq_some_iff.mp htoken
    cases hp
    exact settle_refused hfind fun a s' h => unbindInput_ok h
  | read =>
    obtain ⟨_, rfl, hp⟩ := Option.map_eq_some_iff.mp htoken
    cases hp
    exact settle_refused hfind fun a s' h => providerInbox_ok h
  | report =>
    obtain ⟨_, rfl, hp⟩ := Option.map_eq_some_iff.mp htoken
    cases hp
    exact settle_refused hfind fun a s' h => reportInput_ok h

/-! ## Runs -/

/-- Only these tokens are shown. -/
def Op.Shows (shown : Set String) (op : Op) : Prop := ∀ p, op.token = some p → p.2 ∈ shown

/-- A thread is bound by one record at most. -/
def BoundOnce (s : Inputs) : Prop :=
  ∀ r ∈ s.records, ∀ r' ∈ s.records, ∀ b b', r.inputBinding = some b →
    r'.inputBinding = some b' → b.provider.thread = b'.provider.thread → r = r'

structure Consumers (digest : String → String) (shown : Set String) (s : Inputs) : Prop where
  one : BoundOnce s
  token : ∀ r ∈ s.records, ∀ b, r.inputBinding = some b → ∃ t ∈ shown, b.tokenSha256 = digest t

theorem consumers_empty : Consumers digest shown empty :=
  ⟨fun _ hr => absurd hr not_mem_empty, fun _ hr => absurd hr not_mem_empty⟩

/-- The record that was written has its thread to itself. -/
theorem Rebinds.alone (h : Rebinds digest shown running s record (some b'))
    (hs : Consumers digest shown s) (hmem : record ∈ s.records) (hr : r ∈ s.records)
    (hb : r.inputBinding = some b) (hthread : b.provider.thread = b'.provider.thread) :
    r.id = record.id := by
  cases h with
  | kept hbound hkeeps =>
    rw [hs.one r hr record hmem b _ hb hbound (hthread.trans hkeeps.thread)]
  | made _ hother =>
    by_contra hid
    have hnot := hother r hr hid
    rw [InputRecord.boundTo, hb, Option.any_some, decide_eq_false_iff_not] at hnot
    exact hnot hthread

theorem Writes.consumers (h : Writes digest shown running s s') (hs : Consumers digest shown s) :
    Consumers digest shown s' := by
  cases h with
  | left hleft =>
    have hbefore {r : InputRecord} {b : InputBinding} (hr : r ∈ s'.records)
        (hb : r.inputBinding = some b) : r ∈ s.records :=
      (hleft r hr).resolve_right fun hnone => absurd (hnone.symm.trans hb) (by simp)
    exact ⟨fun r hr r' hr' b b' hb hb' => hs.one r (hbefore hr hb) r' (hbefore hr' hb') b b' hb hb',
      fun r hr b hb => hs.token r (hbefore hr hb) b hb⟩
  | @wrote record w hmem hid hbinds hwrote =>
    -- a row that is not the written one has another thread, or is the row it replaced
    have halone {r : InputRecord} {b b' : InputBinding} (hw : w ∈ s'.records) (hr : r ∈ s'.records)
        (hrs : r ∈ s.records) (hb : r.inputBinding = some b) (hb' : w.inputBinding = some b')
        (hthread : b.provider.thread = b'.provider.thread) : r = w := by
      rw [hb'] at hbinds
      exact eq_of_key_eq hr hw ((hbinds.alone hs hmem hrs hb hthread).trans hid)
    refine ⟨fun r hr r' hr' b b' hb hb' hthread => ?_, fun r hr b hb => ?_⟩
    · rcases hwrote r hr with rfl | hrs
      · rcases hwrote r' hr' with rfl | hrs'
        · rfl
        · exact (halone hr hr' hrs' hb' hb hthread.symm).symm
      · rcases hwrote r' hr' with rfl | hrs'
        · exact halone hr' hr hrs hb hb' hthread
        · exact hs.one r hrs r' hrs' b b' hb hb' hthread
    · rcases hwrote r hr with rfl | hrs
      · rw [hb] at hbinds
        cases hbinds with
        | kept hbound hkeeps =>
          obtain ⟨t, ht, htoken⟩ := hs.token record hmem _ hbound
          exact ⟨t, ht, hkeeps.token.trans htoken⟩
        | made _ _ htoken => exact htoken
      · exact hs.token r hrs b hb

/-- A record that is bound before and after keeps its consumer. -/
theorem Writes.keeps {r' : InputRecord} (h : Writes digest shown running s s') (hr : r ∈ s.records)
    (hr' : r' ∈ s'.records) (hid : r'.id = r.id) (hb : r.inputBinding = some b)
    (hb' : r'.inputBinding = some b') :
    KeepsConsumer running b b' := by
  have hsame (hrs : r' ∈ s.records) : KeepsConsumer running b b' := by
    rw [eq_of_key_eq hrs hr hid, hb] at hb'
    cases hb'
    exact ⟨rfl, rfl, .inl rfl⟩
  cases h with
  | left hleft =>
    exact hsame ((hleft r' hr').resolve_right fun hnone => absurd (hnone.symm.trans hb') (by simp))
  | wrote hmem hidw hbinds hwrote =>
    rcases hwrote r' hr' with rfl | hrs
    · rw [eq_of_key_eq hmem hr (hidw.trans hid), hb'] at hbinds
      cases hbinds with
      | kept hbound hkeeps =>
        rw [hb] at hbound
        cases hbound
        exact hkeeps
      | made hfree =>
        rw [hb] at hfree
        cases hfree
    · exact hsame hrs

theorem bindingFor_free (hfree : record.inputBinding = none) {token : Option String} :
    bindingFor digest record token = bindingFor digest record none := by
  rw [bindingFor.eq_def, bindingFor.eq_def, hfree]

/-! ## One consumer -/

namespace Seat

def agent : AgentId := ⟨"a1"⟩

def session : ProcessIdentity := ⟨10, 100⟩

def first : ProcessIdentity := ⟨20, 110⟩

def second : ProcessIdentity := ⟨21, 120⟩

def token : String := "0123456789abcdef0123456789abcdef"

def writer : InputRecord :=
  ⟨agent, "writer", .running, "claude-code", false, false, false, some 10, some 100, some "s1",
    some "/work", none, [], none, none⟩

def generation : ProviderGeneration := ⟨session, "s1", "/home/profile"⟩

/-- Everything runs that has not ended, and every write lands. -/
def machine (ended : List ProcessIdentity) : Host where
  running := fun p => decide (p ∉ ended)
  canonical := id
  pin := fun _ _ => none
  verified := true
  installed := fun _ => true
  engaged := fun _ => false
  observed := fun _ => some false
  blocked := fun _ => false
  held := fun _ => false
  writable := true
  lands := true
  keeps := true

/-- The controller releases its binding. -/
def released : List (Host × Op) :=
  [(machine [], .register writer), (machine [], .bind agent generation first token none 200),
   (machine [], .unbind agent (some token) false)]

/-- The controller ends, and another takes its place. -/
def followed : List (Host × Op) :=
  [(machine [], .register writer), (machine [], .bind agent generation first token none 200),
   (machine [first], .bind agent generation second token none 210)]

/-- The session as another process. -/
def returned : InputRecord :=
  { writer with id := ⟨"a2"⟩, name := "writer-2", pid := some 30, processStartedAt := some 300 }

/-- The session ends with its controllers and comes back under another record, which the
first takes over. -/
def resumed : List (Host × Op) :=
  followed ++ [(machine [session, first, second], .register returned),
     (machine [session, first, second],
      .resume returned.id agent { generation with process := ⟨30, 300⟩ }
        ⟨"/bin/controller", [], "/work", []⟩ 320)]

def report (token : String) : Op := .report agent 100 220 .ready (some token) 220

end Seat

/-- The record is released, and a report with the token of the binding that is gone is
taken all the same. -/
theorem released_reports :
    ((run (step id) empty Seat.released).find Seat.agent).map InputRecord.inputBinding = some none ∧
      ((run (step id) empty Seat.released).call id (Seat.machine [])
        (Seat.report Seat.token)).1 = .ok ∧
      ((((run (step id) empty Seat.released).call id (Seat.machine [])
        (Seat.report Seat.token)).2.find
        Seat.agent).bind InputRecord.inputDelivery).isSome = true := by
  decide +kernel

structure OneConsumer (digest : String → String) (shown : Set String) (s : Inputs) : Prop where
  one : BoundOnce s
  /-- A bound record has a token, and refuses whoever shows another. -/
  token : ∀ r ∈ s.records, ∀ b, r.inputBinding = some b → ∃ t₀ ∈ shown, digest t₀ = b.tokenSha256 ∧
    ∀ host op reference, ∀ t ∈ shown, op.token = some (reference, t) → s.find reference = some r →
      t ≠ t₀ → ∃ why, s.call digest host op = (.refused why, s)
  /-- To a record without a binding a token says nothing. -/
  free : ∀ reference r, s.find reference = some r → r.inputBinding = none → ∀ host token,
    (∀ messages, s.call digest host (.read reference messages token) =
      s.call digest host (.read reference messages none)) ∧
    (∀ processStartedAt observedAt report now,
      s.call digest host (.report reference processStartedAt observedAt report token now) =
        s.call digest host (.report reference processStartedAt observedAt report none now)) ∧
    ∀ force, s.call digest host (.unbind reference token force) = (.ok, s)
  /-- While a record stays bound its thread and its token stay, and so does its controller
  as long as that runs. -/
  follows : ∀ host op, op.Shows shown → ∀ r ∈ s.records, ∀ r' ∈ (s.call digest host op).2.records,
    r'.id = r.id → ∀ b b', r.inputBinding = some b → r'.inputBinding = some b' →
      KeepsConsumer host.running b b'

/-- However records were bound, taken over, upgraded, resumed, released and removed, a
queue has one consumer, as long as no two of the tokens shown have one digest. -/
theorem run_oneConsumer {inputs : List (Host × Op)} (hapart : Set.InjOn digest shown)
    (hshown : ∀ input ∈ inputs, input.2.Shows shown) :
    OneConsumer digest shown (run (step digest) empty inputs) := by
  have hrun : Each (step digest) (fun _ input => input.2.Shows shown) empty inputs :=
    Each.of_mem hshown
  have hs : Consumers digest shown (run (step digest) empty inputs) :=
    (always_of_each consumers_empty
      (fun _ _ hs hinput => (call_writes hinput).consumers hs) hrun).last
  refine ⟨hs.one, fun r hr b hb => ?_, fun reference r hfind hfree host token => ?_,
    fun host op hop r hr r' hr' hid b b' hb hb' => (call_writes hop).keeps hr hr' hid hb hb'⟩
  · obtain ⟨t₀, ht₀, htoken⟩ := hs.token r hr b hb
    refine ⟨t₀, ht₀, htoken.symm, fun host op reference t ht hop hfind hne => ?_⟩
    refine (call_refused hop hfind).resolve_left fun hopens => hne ?_
    exact hapart ht ht₀ ((hopens b hb t rfl).symm.trans htoken)
  · refine ⟨fun messages => ?_, fun processStartedAt observedAt report now => ?_, fun force => ?_⟩
    · simp only [call, providerInbox, hfind, hfree, Option.isSome_none,
        Bool.false_eq_true, if_false]
    · simp only [call, reportInput, hfind, bindingFor_free hfree]
    · simp only [call, unbindInput, hfind, hfree]
      rfl

theorem run_oneConsumer_resumed :
    let s := run (step id) empty Seat.resumed
    (s.find Seat.returned.id).map InputRecord.id = some Seat.agent ∧
      ((s.find Seat.agent).bind InputRecord.inputBinding).map
        (fun b => (b.provider.process, b.controller)) = some (⟨30, 300⟩, Seat.second) ∧
      OneConsumer id Set.univ s :=
  ⟨by decide +kernel, by decide +kernel,
    run_oneConsumer (Set.injOn_of_injective Function.injective_id) fun _ _ _ _ => Set.mem_univ _⟩

end AgentDocker.Daemon.Inputs
