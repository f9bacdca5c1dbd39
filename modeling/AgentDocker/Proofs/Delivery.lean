import AgentDocker.Codex.Controller
import AgentDocker.Lib.Outcomes
import Mathlib.Data.List.Nodup

/-!
# Codex input is delivered at most once

A message is prepared only while no pending input is that message's and the
queue still has it. So it is enough that a message once submitted, and not
refused, is held: it stays a pending input of the ledger file until the queue
has let it go, and a message the queue has let go does not come back. That is
the invariant, `held`; a stop loses nothing of it, because what the controller
has in memory is what the file has.

The other half of the invariant follows a receipt: a pending input is the text
of the message it is for, its receipt is that of an item of the provider's
history with exactly this text, and the queue lets a message go only after the
receipt is in the file.
-/

namespace AgentDocker.Codex

open Lib
open Record Delivery

/-! ## What the ledger's operations do to the pending inputs -/

variable {a a' : Attempt} {fails : Bool} {s : Delivery} {env : Env} {e : Envelope}
  {next : Except String Record} {op : Op} {origin : Option Origin} {receipt : Receipt}
  {r r' : Record} {stage : Stage} {input turn : String}

/-- The input of a slot. -/
def Record.slot (r : Record) : Slot → Option Attempt
  | .active => r.attempt
  | .steered => r.steering

def Slot.other : Slot → Slot
  | .active => .steered
  | .steered => .active

theorem mem_pending : a ∈ r.pending ↔ r.attempt = some a ∨ r.steering = some a := by
  simp [pending]

/-- What is pending is in a slot or in the other one. -/
theorem mem_pending_slot {slot : Slot} :
    a ∈ r.pending ↔ r.slot slot = some a ∨ r.slot slot.other = some a := by
  cases slot with
  | active => exact mem_pending
  | steered => exact mem_pending.trans or_comm

theorem plannedInput_ok (h : r.plannedInput env e origin = .ok a) :
    a.message = e.id ∧ a.input = env.render e ∧ a.receipt = none ∧ a.acknowledged = false := by
  simp only [plannedInput, ensure_bind_ok] at h
  obtain ⟨-, -, -, -, -, -, h⟩ := h
  cases h
  exact ⟨rfl, rfl, rfl, rfl⟩

theorem prepareBound_ok (h : r.prepareBound env e origin = .ok r') :
    r.attempt = none ∧ r.steering = none ∧
      ∃ a, r.plannedInput env e origin = .ok a ∧ r' = { r with attempt := some a } := by
  simp only [prepareBound, ensure_bind_ok, Bool.and_eq_true, Option.isNone_iff_eq_none] at h
  obtain ⟨⟨hattempt, hsteering⟩, h⟩ := h
  obtain ⟨a, hplan, h⟩ := bind_eq_ok.mp h
  cases h
  exact ⟨hattempt, hsteering, a, hplan, rfl⟩

theorem prepareSteering_ok (h : r.prepareSteering env e turn = .ok r') :
    ∃ active a, r.attempt = some active ∧ active.message ≠ e.id ∧ r.steering = none ∧
      r.plannedInput env e active.mcpOrigin = .ok a ∧ r' = { r with steering := some a } := by
  simp only [prepareSteering, context_bind_ok, ensure_bind_ok] at h
  obtain ⟨active, hactive, -, hsteering, hne, h⟩ := h
  obtain ⟨a, hplan, h⟩ := bind_eq_ok.mp h
  cases h
  exact ⟨active, a, hactive, by simpa using hne, by simpa using hsteering, hplan, rfl⟩

/-- One pending input gone, or replaced by another in its place. -/
structure Replaced (r r' : Record) (a : Attempt) (new : Option Attempt) : Prop where
  here : a ∈ r.pending
  there : ∀ b ∈ new, b ∈ r'.pending
  new : ∀ b ∈ r'.pending, new = some b ∨ b ∈ r.pending
  old : ∀ b ∈ r.pending, b = a ∨ b ∈ r'.pending

theorem Replaced.of_slot (slot : Slot) {new : Option Attempt} (h : r.slot slot = some a)
    (h' : r'.slot slot = new) (hother : r'.slot slot.other = r.slot slot.other) :
    Replaced r r' a new := by
  refine ⟨mem_pending_slot.mpr (.inl h), fun b hb => mem_pending_slot.mpr (.inl (h'.trans hb)),
    fun b hb => ?_, fun b hb => ?_⟩
  · rcases mem_pending_slot.mp hb with hb | hb
    · exact .inl (h'.symm.trans hb)
    · exact .inr (mem_pending_slot.mpr (.inr (hother.symm.trans hb)))
  · rcases mem_pending_slot.mp hb with hb | hb
    · exact .inl (Option.some.inj (hb.symm.trans h))
    · exact .inr (mem_pending_slot.mpr (.inr (hother.trans hb)))

theorem onPending_ok {meant : Attempt → Bool} {why : String}
    {change : Attempt → Except String Attempt} (h : r.onPending meant why change = .ok r') :
    ∃ a a', meant a = true ∧ change a = .ok a' ∧ Replaced r r' a (some a') := by
  simp only [onPending] at h
  split at h
  · next a hfound =>
    obtain ⟨hattempt, hmeant⟩ := Option.filter_eq_some_iff.mp hfound
    obtain ⟨a', hchange, h⟩ := bind_eq_ok.mp h
    cases h
    exact ⟨a, a', hmeant, hchange, .of_slot .active hattempt rfl rfl⟩
  · simp only [context_bind_ok] at h
    obtain ⟨a, hfound, h⟩ := h
    obtain ⟨hsteering, hmeant⟩ := Option.filter_eq_some_iff.mp hfound
    obtain ⟨a', hchange, h⟩ := bind_eq_ok.mp h
    cases h
    exact ⟨a, a', hmeant, hchange, .of_slot .steered hsteering rfl rfl⟩

theorem accept_ok (h : r.accept input receipt = .ok r') :
    ∃ a, a.input = input ∧ Replaced r r' a (some { a with receipt := some receipt }) := by
  simp only [accept, ensure_bind_ok] at h
  obtain ⟨-, h⟩ := h
  obtain ⟨a, _, hmeant, hchange, hreplaced⟩ := onPending_ok h
  simp only [ensure_bind_ok] at hchange
  obtain ⟨-, hchange⟩ := hchange
  cases hchange
  exact ⟨a, by simpa using hmeant, hreplaced⟩

theorem acknowledge_ok {message : String} (h : r.acknowledge message = .ok r') :
    ∃ a, a.message = message ∧ Replaced r r' a (some { a with acknowledged := true }) := by
  obtain ⟨a, _, hmeant, hchange, hreplaced⟩ := onPending_ok h
  simp only [ensure_bind_ok] at hchange
  obtain ⟨-, hchange⟩ := hchange
  cases hchange
  exact ⟨a, by simpa using hmeant, hreplaced⟩

theorem finishSteering_ok (h : r.finishSteering = .ok r') :
    ∃ a, a.acknowledged = true ∧ Replaced r r' a none := by
  simp only [finishSteering, context_bind_ok, ensure_bind_ok] at h
  obtain ⟨a, hsteering, hack, _, -, h⟩ := h
  cases h
  exact ⟨a, hack, .of_slot .steered hsteering rfl rfl⟩

theorem finish_ok (h : r.finish turn = .ok r') :
    ∃ a, a.acknowledged = true ∧ Replaced r r' a none := by
  simp only [finish, context_bind_ok, ensure_bind_ok, Bool.and_eq_true] at h
  obtain ⟨-, -, -, a, hattempt, _, -, ⟨hack, -⟩, h⟩ := h
  cases h
  exact ⟨a, hack, .of_slot .active hattempt rfl rfl⟩

/-- The provider's refusal of a slot's input, in the ledger. -/
theorem reject_ok {slot : Slot} (h : r.reject slot = .ok r') :
    ∃ a, r.slot slot = some a ∧ Replaced r r' a none := by
  cases slot with
  | active =>
    simp only [reject, rejectPrepared, context_bind_ok, ensure_bind_ok] at h
    obtain ⟨a, hattempt, -, h⟩ := h
    cases h
    exact ⟨a, hattempt, .of_slot .active hattempt rfl rfl⟩
  | steered =>
    simp only [reject, rejectSteering, context_bind_ok, ensure_bind_ok] at h
    obtain ⟨a, hsteering, -, h⟩ := h
    cases h
    exact ⟨a, hsteering, .of_slot .steered hsteering rfl rfl⟩

theorem findReceipt_some {history : List Item} {thread : String}
    (h : findReceipt history thread input = some receipt) :
    ∃ i ∈ history, i.receipt = receipt ∧ i.text = input := by
  simp only [findReceipt] at h
  split at h
  · next found hfound =>
    cases h
    have hmem : found ∈ history.filter fun i => i.thread == thread && i.text == input := by
      rw [hfound]
      exact List.mem_singleton.mpr rfl
    obtain ⟨hmem, hmatches⟩ := List.mem_filter.mp hmem
    simp only [Bool.and_eq_true, beq_iff_eq] at hmatches
    exact ⟨found, hmem, rfl, hmatches.2⟩
  · cases h

/-! ## What the file's record is worth -/

/-- `m` is not in the queue. -/
def LetGo (queue : List Envelope) (m : String) : Prop := ∀ e ∈ queue, e.id ≠ m

/-- The record `r` of the file, next to the queue, the provider's history and
what has been submitted. -/
structure Kept (env : Env) (arrived queue : List Envelope) (history : List Item)
    (submissions : List Submission) (r : Record) : Prop where
  /-- A pending input is the text of the message it is for. -/
  inputs : ∀ a ∈ r.pending, ∃ e ∈ arrived, e.id = a.message ∧ a.input = env.render e
  /-- Its receipt is that of an item with exactly this text. -/
  receipts : ∀ a ∈ r.pending, ∀ receipt, a.receipt = some receipt →
    ∃ i ∈ history, i.receipt = receipt ∧ i.text = a.input
  /-- Once it is acknowledged, the queue has let the message go. -/
  gone : ∀ a ∈ r.pending, a.acknowledged = true → LetGo queue a.message
  /-- What was submitted and not refused is pending, or let go by the queue. -/
  held : ∀ sub ∈ submissions, sub.refused = false →
    (∃ a ∈ r.pending, a.message = sub.message) ∨ LetGo queue sub.message

section Kept

variable {env : Env} {arrived queue : List Envelope} {history : List Item}
  {submissions : List Submission} {r r' : Record}

variable (h : Kept env arrived queue history submissions r)
include h

theorem Kept.same
    (hpending : r'.pending = r.pending) : Kept env arrived queue history submissions r' := by
  obtain ⟨hinputs, hreceipts, hgone, hheld⟩ := h
  exact ⟨hpending ▸ hinputs, hpending ▸ hreceipts, hpending ▸ hgone, hpending ▸ hheld⟩

variable {a : Attempt} {e : Envelope}

theorem Kept.named : ∀ a ∈ r.pending, a.message ∈ arrived.map (·.id) := fun a ha => by
  obtain ⟨e, he, hid, -⟩ := h.inputs a ha
  exact List.mem_map.mpr ⟨e, he, hid⟩

theorem Kept.replaced {a' : Attempt}
    (hreplaced : Replaced r r' a (some a')) (hmessage : a'.message = a.message)
    (hinput : a'.input = a.input)
    (hreceipt : ∀ receipt, a'.receipt = some receipt → a.receipt = some receipt ∨
      ∃ i ∈ history, i.receipt = receipt ∧ i.text = a.input)
    (hack : a'.acknowledged = true → a.acknowledged = true ∨ LetGo queue a.message) :
    Kept env arrived queue history submissions r' := by
  refine ⟨fun b hb => ?_, fun b hb receipt hr => ?_, fun b hb hback => ?_, fun sub hsub hno => ?_⟩
  · rcases hreplaced.new b hb with hnew | hb
    · cases hnew
      rw [hmessage, hinput]
      exact h.inputs a hreplaced.here
    · exact h.inputs b hb
  · rcases hreplaced.new b hb with hnew | hb
    · cases hnew
      rw [hinput]
      exact (hreceipt receipt hr).elim (h.receipts a hreplaced.here receipt) id
    · exact h.receipts b hb receipt hr
  · rcases hreplaced.new b hb with hnew | hb
    · cases hnew
      rw [hmessage]
      exact (hack hback).elim (h.gone a hreplaced.here) id
    · exact h.gone b hb hback
  · refine (h.held sub hsub hno).imp (fun ⟨b, hb, heq⟩ => ?_) id
    rcases hreplaced.old b hb with rfl | hb
    · exact ⟨a', hreplaced.there a' rfl, hmessage.trans heq⟩
    · exact ⟨b, hb, heq⟩

/-- An input leaves the record once the queue has let its message go, or all its
submissions were refused. -/
theorem Kept.removed (hremoved : Replaced r r' a none) (hfree : LetGo queue a.message ∨
      ∀ sub ∈ submissions, sub.message = a.message → sub.refused = true) :
    Kept env arrived queue history submissions r' := by
  have hrest : ∀ b ∈ r'.pending, b ∈ r.pending := fun b hb =>
    (hremoved.new b hb).resolve_left (by simp)
  refine ⟨fun b hb => h.inputs b (hrest b hb), fun b hb => h.receipts b (hrest b hb),
    fun b hb => h.gone b (hrest b hb), fun sub hsub hno => ?_⟩
  rcases h.held sub hsub hno with ⟨b, hb, heq⟩ | hgo
  · rcases hremoved.old b hb with rfl | hb
    · rcases hfree with hgo | hrefused
      · exact .inr (heq ▸ hgo)
      · rw [hrefused sub hsub heq.symm] at hno
        cases hno
    · exact .inl ⟨b, hb, heq⟩
  · exact .inr hgo

/-- A new pending input, for a message of the queue, in a free slot. -/
theorem Kept.prepared (slot : Slot) (he : e ∈ arrived)
    (hplanned : a.message = e.id ∧ a.input = env.render e ∧ a.receipt = none ∧
      a.acknowledged = false) (hfree : r.slot slot = none) (hslot : r'.slot slot = some a)
    (hother : r'.slot slot.other = r.slot slot.other) :
    Kept env arrived queue history submissions r' := by
  obtain ⟨hmessage, hinput, hreceipt, hack⟩ := hplanned
  have hpending : ∀ b, b ∈ r'.pending ↔ b = a ∨ b ∈ r.pending := by
    intro b
    rw [mem_pending_slot, mem_pending_slot, hslot, hother, hfree]
    simp [eq_comm]
  refine ⟨fun b hb => ?_, fun b hb receipt hr => ?_, fun b hb hback => ?_, fun sub hsub hno => ?_⟩
  · rcases (hpending b).mp hb with rfl | hb
    · exact ⟨e, he, hmessage.symm, hinput⟩
    · exact h.inputs b hb
  · rcases (hpending b).mp hb with rfl | hb
    · rw [hreceipt] at hr
      cases hr
    · exact h.receipts b hb receipt hr
  · rcases (hpending b).mp hb with rfl | hb
    · rw [hack] at hback
      cases hback
    · exact h.gone b hb hback
  · exact (h.held sub hsub hno).imp (fun ⟨b, hb, heq⟩ => ⟨b, (hpending b).mpr (.inr hb), heq⟩) id

/-- A message of the queue that is no pending input's has been submitted only to
be refused. -/
theorem Kept.refused_of_queued (he : e ∈ queue) (hnot : ∀ a ∈ r.pending, a.message ≠ e.id) :
    ∀ sub ∈ submissions, sub.message = e.id → sub.refused = true := by
  intro sub hsub heq
  cases hno : sub.refused with
  | true => rfl
  | false =>
    rcases h.held sub hsub hno with ⟨a, ha, hmessage⟩ | hgo
    · exact absurd (hmessage.trans heq) (hnot a ha)
    · exact absurd heq.symm (hgo e he)

end Kept

/-! ## Where the controller stands -/

/-- What is known of a message in the middle of something. -/
def StageSound (s : Delivery) (r : Record) : Stage → Prop
  | .idle => True
  | .submitting slot message _ | .refused slot message =>
    (∃ a, r.slot slot = some a ∧ a.message = message) ∧
      ∀ sub ∈ s.submissions, sub.message = message → sub.refused = true
  | .acknowledged message => LetGo s.queue message ∧ message ∈ s.arrived.map (·.id)

structure Sound (env : Env) (s : Delivery) : Prop where
  ids : (s.arrived.map (·.id)).Nodup
  queued : s.queue ⊆ s.arrived
  known : ∀ sub ∈ s.submissions, sub.message ∈ s.arrived.map (·.id)
  once : s.submissions.Pairwise fun newer older =>
    older.message = newer.message → older.refused = true
  kept : Kept env s.arrived s.queue s.history s.submissions s.disk
  /-- What the controller has in memory is what the file has. -/
  memory : ∀ r stage, s.running = some (r, stage) → r = s.disk ∧ StageSound s r stage

/-- A save, or the failure of one. -/
theorem Sound.commit (h : Sound env s) (hok : ∀ r', next = .ok r' →
      Kept env s.arrived s.queue s.history s.submissions r' ∧ StageSound s r' stage) :
    Sound env (s.commit env s.disk fails next stage) := by
  have hidle : Sound env { s with running := some (s.disk, .idle) } := by
    refine { h with memory := fun r stage hrun => ?_ }
    cases hrun
    exact ⟨rfl, trivial⟩
  simp only [Delivery.commit]
  split
  · next saved hsaved =>
    cases hnext : next with
    | error => rw [hnext] at hsaved; cases hsaved
    | ok =>
      rw [hnext] at hsaved
      obtain rfl := save_ok hsaved
      obtain ⟨hkept, hstage⟩ := hok saved hnext
      refine { h with kept := hkept, memory := fun r stage' hrun => ?_ }
      cases hrun
      refine ⟨rfl, ?_⟩
      cases stage <;> exact hstage
  · exact hidle

/-! ## One step -/

section Steps

variable {env : Env} {s : Delivery}

variable {fails : Bool} {e : Envelope} {r r' : Record} {m : String}

theorem LetGo.filter {queue : List Envelope} {p : Envelope → Bool} (h : LetGo queue m) :
    LetGo (queue.filter p) m :=
  fun e he => h e (List.mem_of_mem_filter he)

/-- A message the queue has let go does not come back: what arrives is new. -/
theorem LetGo.arrive (hnew : e.id ∉ s.arrived.map (·.id)) (hm : m ∈ s.arrived.map (·.id))
    (hgo : LetGo s.queue m) : LetGo (s.queue ++ [e]) m := by
  intro x hx
  rcases List.mem_append.mp hx with hx | hx
  · exact hgo x hx
  · rw [List.mem_singleton.mp hx]
    exact fun heq => hnew (heq ▸ hm)

theorem bindThread_pending {thread : String} (h : r.bindThread thread = .ok r') :
    r'.pending = r.pending := by
  simp only [bindThread, ensure_bind_ok] at h
  obtain ⟨-, -, h⟩ := h
  cases h
  rfl

theorem discardUnusedThread_pending (h : r.discardUnusedThread = .ok r') :
    r'.pending = r.pending := by
  simp only [discardUnusedThread, ensure_bind_ok] at h
  obtain ⟨-, h⟩ := h
  cases h
  rfl

variable (h : Sound env s)
include h

/-- A ledger operation after which nothing is under way. -/
theorem Sound.commit_idle {next : Except String Record}
    (hok : ∀ r', next = .ok r' → Kept env s.arrived s.queue s.history s.submissions r') :
    Sound env (s.commit env s.disk fails next .idle) :=
  h.commit fun r' hr' => ⟨hok r' hr', trivial⟩

theorem Sound.prepareBound {origin : Option Origin} (he : e ∈ s.queue) :
    Sound env (s.commit env s.disk fails (s.disk.prepareBound env e origin)
      (.submitting .active e.id (env.render e))) := by
  refine h.commit fun r' hr' => ?_
  obtain ⟨hattempt, hsteering, a, hplan, rfl⟩ := prepareBound_ok hr'
  have hplanned := plannedInput_ok hplan
  have hempty : ∀ b, b ∉ s.disk.pending := by
    simp [mem_pending, hattempt, hsteering]
  exact ⟨h.kept.prepared .active (h.queued he) hplanned hattempt rfl rfl, ⟨a, rfl, hplanned.1⟩,
    h.kept.refused_of_queued he fun b hb => absurd hb (hempty b)⟩

theorem Sound.prepareSteering {turn : String} (he : e ∈ s.queue) :
    Sound env (s.commit env s.disk fails (s.disk.prepareSteering env e turn)
      (.submitting .steered e.id (env.render e))) := by
  refine h.commit fun r' hr' => ?_
  obtain ⟨active, a, hattempt, hne, hsteering, hplan, rfl⟩ := prepareSteering_ok hr'
  have hplanned := plannedInput_ok hplan
  -- the one pending input is the active one, and that is not this message's
  have hactive : ∀ b ∈ s.disk.pending, b = active := by
    simp [mem_pending, hattempt, hsteering]
  exact ⟨h.kept.prepared .steered (h.queued he) hplanned hsteering rfl rfl, ⟨a, rfl, hplanned.1⟩,
    h.kept.refused_of_queued he fun b hb => hactive b hb ▸ hne⟩

theorem Sound.accept {i : Item} {receipt : Receipt} (hi : i ∈ s.history)
    (hreceipt : i.receipt = receipt) :
    Sound env (s.commit env s.disk fails (s.disk.accept i.text receipt) .idle) := by
  refine h.commit_idle fun r' hr' => ?_
  obtain ⟨_, hinput, hreplaced⟩ := accept_ok hr'
  refine h.kept.replaced hreplaced rfl rfl (fun new hnew => .inr ?_) .inl
  cases hnew
  exact ⟨i, hi, hreceipt, hinput.symm⟩

theorem Sound.acknowledgeLedger (hgo : LetGo s.queue m) :
    Sound env (s.commit env s.disk fails (s.disk.acknowledge m) .idle) := by
  refine h.commit_idle fun r' hr' => ?_
  obtain ⟨_, rfl, hreplaced⟩ := acknowledge_ok hr'
  exact h.kept.replaced hreplaced rfl rfl (fun _ => .inl) fun _ => .inr hgo

theorem Sound.reject {slot : Slot} (hstage : StageSound s s.disk (.refused slot m)) :
    Sound env (s.commit env s.disk fails (s.disk.reject slot) .idle) := by
  refine h.commit_idle fun r' hr' => ?_
  obtain ⟨_, hslot, hremoved⟩ := reject_ok hr'
  obtain ⟨⟨_, hb, rfl⟩, hrefused⟩ := hstage
  rw [hslot] at hb
  cases hb
  exact h.kept.removed hremoved (.inr hrefused)

theorem Sound.acknowledgeQueue (hm : acknowledgeable s.disk m = true) :
    Sound env { s with queue := s.queue.filter fun e => e.id != m,
                       running := some (s.disk, .acknowledged m) } := by
  have hgo : LetGo (s.queue.filter fun e => e.id != m) m :=
    fun e he => by simpa using (List.mem_filter.mp he).2
  have hknown : m ∈ s.arrived.map (·.id) := by
    simp only [acknowledgeable, List.any_eq_true, Bool.and_eq_true, beq_iff_eq] at hm
    obtain ⟨a, ha, ⟨rfl, -⟩, -⟩ := hm
    exact h.kept.named a ha
  refine ⟨h.ids, fun e he => h.queued (List.mem_of_mem_filter he), h.known, h.once,
    { h.kept with
      gone := fun a ha hack => (h.kept.gone a ha hack).filter
      held := fun sub hsub hno => (h.kept.held sub hsub hno).imp_right .filter },
    fun r stage hrun => ?_⟩
  cases hrun
  exact ⟨rfl, hgo, hknown⟩

/-- A submission joins the others: all those of its message were refused. -/
theorem Sound.submitted {slot : Slot} {input : String} {answer : Answer}
    (hstage : StageSound s s.disk (.submitting slot m input)) :
    Sound env (s.submitted s.disk slot m input answer) := by
  obtain ⟨⟨a, hslot, rfl⟩, hrefused⟩ := hstage
  have ha : a ∈ s.disk.pending := mem_pending_slot.mpr (.inl hslot)
  have hknown : ∀ refused, ∀ sub ∈ (⟨a.message, refused⟩ : Submission) :: s.submissions,
      sub.message ∈ s.arrived.map (·.id) :=
    fun refused => List.forall_mem_cons.mpr ⟨h.kept.named a ha, h.known⟩
  have honce : ∀ refused, ((⟨a.message, refused⟩ : Submission) :: s.submissions).Pairwise
      fun newer older => older.message = newer.message → older.refused = true :=
    fun refused => List.pairwise_cons.mpr ⟨hrefused, h.once⟩
  have hheld : ∀ refused, ∀ sub ∈ (⟨a.message, refused⟩ : Submission) :: s.submissions,
      sub.refused = false →
        (∃ b ∈ s.disk.pending, b.message = sub.message) ∨ LetGo s.queue sub.message :=
    fun refused => List.forall_mem_cons.mpr ⟨fun _ => .inl ⟨a, ha, rfl⟩, h.kept.held⟩
  cases answer with
  | accepted =>
    refine ⟨h.ids, h.queued, hknown _, honce _, ⟨h.kept.inputs, fun b hb receipt hr => ?_,
      h.kept.gone, hheld _⟩, fun r stage hrun => ?_⟩
    · obtain ⟨i, hi, hreceipt⟩ := h.kept.receipts b hb receipt hr
      exact ⟨i, .tail _ hi, hreceipt⟩
    · cases hrun
      exact ⟨rfl, trivial⟩
  | refused =>
    refine ⟨h.ids, h.queued, hknown _, honce _, { h.kept with held := hheld _ },
      fun r stage hrun => ?_⟩
    cases hrun
    exact ⟨rfl, ⟨a, hslot, rfl⟩, List.forall_mem_cons.mpr ⟨fun _ => rfl, hrefused⟩⟩
  | lost =>
    refine ⟨h.ids, h.queued, hknown _, honce _, { h.kept with held := hheld _ },
      fun r stage hrun => ?_⟩
    cases hrun
    exact ⟨rfl, trivial⟩

theorem Sound.arrive (hnew : e.id ∉ s.arrived.map (·.id)) :
    Sound env { s with queue := s.queue ++ [e], arrived := s.arrived ++ [e] } := by
  have hold : ∀ {m}, m ∈ s.arrived.map (·.id) → m ∈ (s.arrived ++ [e]).map (·.id) := by
    simp +contextual
  refine ⟨?_, ?_, fun sub hsub => hold (h.known sub hsub), h.once, ⟨fun a ha => ?_,
    h.kept.receipts, fun a ha hack => (h.kept.gone a ha hack).arrive hnew (h.kept.named a ha),
    fun sub hsub hno => (h.kept.held sub hsub hno).imp_right (.arrive hnew (h.known sub hsub))⟩,
    fun r stage hrun => ?_⟩
  · rw [List.map_append]
    exact List.nodup_append'.mpr ⟨h.ids, by simp, by simpa using hnew⟩
  · exact List.append_subset.mpr
      ⟨fun x hx => List.mem_append_left _ (h.queued hx), List.subset_append_right ..⟩
  · obtain ⟨x, hx, hplanned⟩ := h.kept.inputs a ha
    exact ⟨x, List.mem_append_left _ hx, hplanned⟩
  · obtain ⟨hdisk, hstage⟩ := h.memory r stage hrun
    refine ⟨hdisk, ?_⟩
    cases stage with
    | idle => trivial
    | submitting | refused => exact hstage
    | acknowledged => exact ⟨hstage.1.arrive hnew hstage.2, hold hstage.2⟩

theorem Sound.idle {op : Op} : Sound env (s.idle env s.disk op) := by
  cases op with
  | bindThread =>
    exact h.commit_idle fun r' hr' => h.kept.same (bindThread_pending hr')
  | discardUnusedThread =>
    exact h.commit_idle fun r' hr' => h.kept.same (discardUnusedThread_pending hr')
  | review =>
    refine h.commit_idle fun r' hr' => h.kept.same ?_
    cases hr'
    rfl
  | prepareBound =>
    simp only [Delivery.idle]
    split
    · next he => exact h.prepareBound he
    · exact h
  | prepareSteering =>
    simp only [Delivery.idle]
    split
    · next he => exact h.prepareSteering he
    · exact h
  | notify =>
    simp only [Delivery.idle]
    split
    · next hitem => exact h.accept hitem rfl
    · exact h
  | recover =>
    simp only [Delivery.idle]
    split
    · next receipt hfound =>
      obtain ⟨_, -, hfound⟩ := Option.bind_eq_some_iff.mp hfound
      obtain ⟨_, hi, hreceipt, rfl⟩ := findReceipt_some hfound
      exact h.accept hi hreceipt
    · exact h
  | acknowledgeQueue =>
    simp only [Delivery.idle]
    split
    · next hm => exact h.acknowledgeQueue hm
    · exact h
  | finishSteering =>
    refine h.commit_idle fun r' hr' => ?_
    obtain ⟨a, hack, hremoved⟩ := finishSteering_ok hr'
    exact h.kept.removed hremoved (.inl (h.kept.gone a hremoved.here hack))
  | finish =>
    refine h.commit_idle fun r' hr' => ?_
    obtain ⟨a, hack, hremoved⟩ := finish_ok hr'
    exact h.kept.removed hremoved (.inl (h.kept.gone a hremoved.here hack))
  | arrive | reopen | stop | foreign | submit | reject | acknowledgeLedger => exact h

theorem Sound.step (op : Op) : Sound env (s.step env op) := by
  unfold Delivery.step
  split
  · split
    · exact h
    · next hnew => exact h.arrive hnew
  · exact { h with memory := fun r stage hrun => by cases hrun }
  · next item =>
    refine { h with
      kept := { h.kept with receipts := fun a ha receipt hr => ?_ }
      memory := fun r stage hrun => ?_ }
    · obtain ⟨i, hi, hreceipt⟩ := h.kept.receipts a ha receipt hr
      exact ⟨i, .tail _ hi, hreceipt⟩
    · obtain ⟨hdisk, hstage⟩ := h.memory r stage hrun
      exact ⟨hdisk, by cases stage <;> exact hstage⟩
  · split
    · refine { h with memory := fun r stage hrun => ?_ }
      cases hrun
      exact ⟨rfl, trivial⟩
    · exact h
  · split
    · exact h
    · next r hrun =>
      obtain ⟨rfl, -⟩ := h.memory _ _ hrun
      exact h.idle
    · next r slot m input hrun =>
      obtain ⟨rfl, hstage⟩ := h.memory _ _ hrun
      split
      · exact h.submitted hstage
      · exact h
    · next r slot m hrun =>
      obtain ⟨rfl, hstage⟩ := h.memory _ _ hrun
      split
      · exact h.reject hstage
      · exact h
    next r m hrun =>
    obtain ⟨rfl, hstage⟩ := h.memory _ _ hrun
    split
    · exact h.acknowledgeLedger hstage.1
    · exact h

end Steps

theorem sound_empty : Sound env {} := by
  refine ⟨List.nodup_nil, List.nil_subset _, ?_, .nil, ⟨?_, ?_, ?_, ?_⟩, ?_⟩ <;> simp [pending]

/-! ## What leaves the queue -/

theorem commit_queue : (s.commit env r fails next stage).queue = s.queue := by
  simp only [commit]
  split <;> rfl

theorem submitted_queue {slot : Slot} {m : String} {answer : Answer} :
    (s.submitted r slot m input answer).queue = s.queue := by
  cases answer <;> rfl

/-- Only an acknowledgement takes a message from the queue. -/
theorem idle_queue (he : e ∈ s.queue) (hgone : e ∉ (s.idle env r op).queue) :
    acknowledgeable r e.id = true := by
  cases op with
  | acknowledgeQueue m =>
    simp only [Delivery.idle] at hgone
    split at hgone
    · next hm =>
      have hid : e.id = m := by simpa [he] using hgone
      exact hid ▸ hm
    · exact absurd he hgone
  | prepareBound | prepareSteering | notify | recover =>
    simp only [Delivery.idle] at hgone
    split at hgone <;> simp_all [commit_queue]
  | bindThread | discardUnusedThread | review | finishSteering | finish =>
    rw [Delivery.idle, commit_queue] at hgone
    exact absurd he hgone
  | arrive | reopen | stop | foreign | submit | reject | acknowledgeLedger =>
    exact absurd he hgone

theorem step_queue (he : e ∈ s.queue) (hgone : e ∉ (s.step env op).queue) :
    ∃ r, s.running = some (r, .idle) ∧ acknowledgeable r e.id = true := by
  unfold Delivery.step at hgone
  split at hgone
  · split at hgone
    · exact absurd he hgone
    · exact absurd (List.mem_append_left _ he) hgone
  · exact absurd he hgone
  · exact absurd he hgone
  · split at hgone <;> exact absurd he hgone
  · split at hgone
    · exact absurd he hgone
    · next r hrun => exact ⟨r, hrun, idle_queue he hgone⟩
    all_goals
      split at hgone
      · simp only [submitted_queue, commit_queue] at hgone
        exact absurd he hgone
      · exact absurd he hgone

/-- The file has the provider's receipt for exactly the input of this message. -/
def Received (env : Env) (s : Delivery) (e : Envelope) : Prop :=
  ∃ a ∈ s.disk.pending, a.message = e.id ∧ a.input = env.render e ∧
    ∃ i ∈ s.history, a.receipt = some i.receipt ∧ i.text = env.render e

theorem Sound.received (h : Sound env s) (he : e ∈ s.queue) (hgone : e ∉ (s.step env op).queue) :
    Received env s e := by
  obtain ⟨_, hrun, hm⟩ := step_queue he hgone
  obtain ⟨rfl, -⟩ := h.memory _ _ hrun
  simp only [acknowledgeable, List.any_eq_true, Bool.and_eq_true, beq_iff_eq,
    Option.isSome_iff_exists] at hm
  obtain ⟨a, ha, ⟨hmessage, receipt, hreceipt⟩, -⟩ := hm
  obtain ⟨x, hx, hid, hinput⟩ := h.kept.inputs a ha
  -- ids tell arrived messages apart, so the input is of this very message
  have hxe : x = e := List.inj_on_of_nodup_map h.ids hx (h.queued he) (hid.trans hmessage)
  obtain ⟨i, hi, hof, htext⟩ := h.kept.receipts a ha receipt hreceipt
  exact ⟨a, ha, hmessage, hxe ▸ hinput, i, hi, by rw [hreceipt, hof], by rw [htext, hinput, hxe]⟩

/-! ## Whole runs -/

/-- No message is submitted again unless each earlier submission of it was
refused. -/
def AtMostOnce (s : Delivery) : Prop :=
  s.submissions.Pairwise fun newer older => older.message = newer.message → older.refused = true

/-- Whatever the order of the controller's steps, its stops, the failed saves and
the provider's answers: a message is submitted at most once unless its earlier
submission was refused, and leaves the queue only when the ledger's file has the
provider's receipt for its exact input. -/
theorem input_atMostOnce (env : Env) (ops : List Op) :
    Always (Delivery.step env) AtMostOnce {} ops ∧
      Each (Delivery.step env)
        (fun s op => ∀ e ∈ s.queue, e ∉ (s.step env op).queue → Received env s e) {} ops := by
  have hsound : Always (Delivery.step env) (Sound env) {} ops :=
    always_of_invariant sound_empty fun s op h => h.step op
  exact ⟨hsound.imp fun s h => h.once, hsound.each.imp fun s op h e he hgone => h.received he hgone⟩

/-- A lost answer, a stop, and a receipt recovered from the history. -/
example :
    let env : Env := ⟨fun e => e.body, fun _ => true, fun _ => true⟩
    let e : Envelope := ⟨"m1", "human", "ask", none, "hello"⟩
    let s := run (Delivery.step env) {}
      [.arrive e, .reopen, .bindThread "t" false, .prepareBound e none false,
        .submit (.accepted "u" "i"), .stop, .reopen, .prepareBound e none false,
        .recover "hello" false, .acknowledgeQueue "m1", .acknowledgeLedger false,
        .finish "u" false]
    s.submissions = [⟨"m1", false⟩] ∧ s.queue = [] ∧
      s.disk.completed = [⟨"m1", ⟨"t", "u", "i"⟩⟩] := by
  decide +kernel

end AgentDocker.Codex
