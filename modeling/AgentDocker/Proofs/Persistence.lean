import AgentDocker.Daemon.Queues
import AgentDocker.Lib.Runs

/-!
# The queue in memory is the queue on disk

A daemon that is stopped and opened again should deliver what it would have
delivered. Every operation that touches the queues changes the rows and then
does the same to memory, except the two that retire a record into another. One
of them takes its queue from the rows. The other puts the queues in memory
together by when their messages were sent, and leaves the rows in the order
they came in, with what both queues hold in both.

`inStep_iff_orderly` says that memory and disk agree along a run exactly when,
each time the latter is used, the rows of the two records hold no message twice
and are already in the order it sorts by.
-/

namespace AgentDocker.Daemon

open AgentDocker.Core Lib Keyed

/-! ## Loading -/

namespace InboxTable

theorem load_insert {t : InboxTable} {agent : AgentId} {e : Envelope} {a : AgentId} :
    (t.insert agent e).load a = if agent = a then t.load a ++ [e] else t.load a := by
  unfold load ofAgents insert
  by_cases h : agent = a <;> simp [List.filter_append, h]

variable {a : AgentId} {r : InboxRow} {t : InboxTable} {recipients : List AgentId}

/-- One message for several agents, each once. -/
theorem load_foldl_insert (h : recipients.Nodup) (t : InboxTable) (e : Envelope) (a : AgentId) :
    (recipients.foldl (·.insert · e) t).load a =
      if a ∈ recipients then t.load a ++ [e] else t.load a := by
  induction recipients generalizing t with
  | nil => simp
  | cons b _ ih =>
    rw [List.nodup_cons] at h
    rw [List.foldl_cons, ih h.2, load_insert]
    by_cases hb : b = a
    · subst hb
      simp [h.1]
    · simp [hb, Ne.symm hb]

/-- Several messages for one agent. -/
theorem load_foldl_insert_messages (messages : List Envelope) (t : InboxTable) (agent a : AgentId) :
    (messages.foldl (fun t e => t.insert agent e) t).load a =
      if a = agent then t.load a ++ messages else t.load a := by
  induction messages generalizing t with
  | nil => simp
  | cons _ _ ih =>
    rw [List.foldl_cons, ih, load_insert]
    by_cases ha : a = agent
    · simp [ha]
    · simp [ha, Ne.symm ha]

/-- Some agents renamed to one: their rows are its own now, where they stood. -/
theorem load_rename (t : InboxTable) {p : AgentId → Prop} [DecidablePred p] {kept : AgentId}
    (hkept : ¬ p kept) (a : AgentId) :
    (t.rename fun b => if p b then kept else b).load a =
      if a = kept then (t.ofAgents fun b => decide (b = kept ∨ p b)).map (·.message)
      else if p a then [] else t.load a := by
  have hother : p a → a ≠ kept := fun ha heq => hkept (heq ▸ ha)
  have hrow : ∀ b, (if p b then kept else b) = a ↔
      if a = kept then b = kept ∨ p b else ¬ p a ∧ b = a := by
    grind
  unfold load ofAgents rename
  rw [List.filter_map, List.map_map]
  simp only [Function.comp_def, hrow]
  split
  · rfl
  · split <;> simp [*]

theorem ofAgents_delete {p : InboxRow → Bool} {f : AgentId → Bool} :
    (t.delete p).ofAgents f = (t.ofAgents f).filter (!p ·) := by
  unfold ofAgents delete
  rw [List.filter_comm]

/-- Rows of one agent deleted by the message they carry. -/
theorem load_delete (t : InboxTable) (agent : AgentId) {p : InboxRow → Bool}
    {g : Envelope → Bool} (h : ∀ r, p r = (decide (r.agent = agent) && g r.message)) (a : AgentId) :
    (t.delete p).load a = if a = agent then (t.load a).filter (!g ·) else t.load a := by
  rw [load, load, ofAgents_delete]
  split
  · next ha =>
    rw [List.filter_map]
    refine congrArg _ (List.filter_congr fun r hr => ?_)
    simp [h r, ← ha, of_decide_eq_true (List.mem_filter.mp hr).2]
  next ha =>
  rw [List.filter_eq_self.mpr fun r hr => ?_]
  simp [h r, ha, of_decide_eq_true (List.mem_filter.mp hr).2]

theorem seqs_nodup (t : InboxTable) : (t.rows.map (·.seq)).Nodup := by
  rw [List.Nodup, List.pairwise_map]
  exact t.ordered.imp fun h => Nat.ne_of_lt h

theorem eq_of_seq_eq {s : InboxRow} (hr : r ∈ t.rows) (hs : s ∈ t.rows) (h : r.seq = s.seq) :
    r = s :=
  List.inj_on_of_nodup_map t.seqs_nodup hr hs h

theorem ofAgents_seqs_nodup (t : InboxTable) (p : AgentId → Bool) :
    ((t.ofAgents p).map (·.seq)).Nodup :=
  t.seqs_nodup.sublist (List.filter_sublist.map _)

theorem mem_ofAgents {p : AgentId → Bool} :
    r ∈ t.ofAgents p ↔ r ∈ t.rows ∧ p r.agent = true :=
  List.mem_filter

theorem mem_load {m : Envelope} :
    m ∈ t.load a ↔ ∃ r ∈ t.rows, r.agent = a ∧ r.message = m := by
  simp [load, ofAgents, and_assoc]

theorem mem_rows_foldl_insert {α : Type} {xs : List α} {agent : α → AgentId}
    {message : α → Envelope}
    (h : r ∈ (xs.foldl (fun t x => t.insert (agent x) (message x)) t).rows) :
    r ∈ t.rows ∨ ∃ x ∈ xs, r.message = message x := by
  induction xs generalizing t with
  | nil => exact .inl h
  | cons x _ ih =>
    rcases ih h with h | ⟨y, hy, heq⟩
    · rcases List.mem_append.mp h with h | h
      · exact .inl h
      · rw [List.mem_singleton.mp h]
        exact .inr ⟨x, List.mem_cons_self, rfl⟩
    · exact .inr ⟨y, List.mem_cons_of_mem _ hy, heq⟩

end InboxTable

namespace Queues

/-! ## Which messages are where -/

/-- Ids are drawn for what is queued, said or held; what is held has been
neither queued nor said, and is held once. -/
structure Sound (rows : List InboxRow) (held : Keyed HeldMessage.question)
    (archived : List Envelope) (drawn : List MessageId) : Prop where
  rowsDrawn : ∀ r ∈ rows, r.message.id ∈ drawn
  saidDrawn : ∀ e ∈ archived, e.id ∈ drawn
  saidOnce : (archived.map (·.id)).Nodup
  heldDrawn : ∀ h ∈ held, h.envelope.id ∈ drawn
  heldOnce : ∀ h ∈ held, ∀ h' ∈ held, h.envelope.id = h'.envelope.id → h = h'
  unqueued : ∀ h ∈ held, ∀ r ∈ rows, r.message.id ≠ h.envelope.id
  unsaid : ∀ h ∈ held, ∀ e ∈ archived, e.id ≠ h.envelope.id

variable {rows rows' : List InboxRow} {held : Keyed HeldMessage.question}
  {archived : List Envelope} {drawn : List MessageId}

variable {caller kept prior : AgentId} {card e : Envelope} {retired : List AgentId}
  {queue : List Envelope} {duplicates : List Nat} {op : Op} {q : Queues}

section

variable (h : Sound rows held archived drawn)
include h

/-- Rows of messages that had rows, or were said. -/
theorem Sound.of_rows (hrows : ∀ r ∈ rows', (∃ s ∈ rows, s.message.id = r.message.id) ∨
      ∃ e ∈ archived, e.id = r.message.id) : Sound rows' held archived drawn where
  __ := h
  rowsDrawn r hr := by
    rcases hrows r hr with ⟨s, hs, heq⟩ | ⟨e, he, heq⟩
    · exact heq ▸ h.rowsDrawn s hs
    · exact heq ▸ h.saidDrawn e he
  unqueued k hk r hr := by
    rcases hrows r hr with ⟨s, hs, heq⟩ | ⟨e, he, heq⟩
    · exact heq ▸ h.unqueued k hk s hs
    · exact heq ▸ h.unsaid k hk e he

theorem Sound.of_held {held' : Keyed HeldMessage.question}
    (hheld : ∀ k ∈ held', k ∈ held) : Sound rows held' archived drawn where
  __ := h
  heldDrawn k hk := h.heldDrawn k (hheld k hk)
  heldOnce k hk k' hk' := h.heldOnce k (hheld k hk) k' (hheld k' hk')
  unqueued k hk := h.unqueued k (hheld k hk)
  unsaid k hk := h.unsaid k (hheld k hk)

theorem Sound.draw (ids : List MessageId) : Sound rows held archived (drawn ++ ids) where
  __ := h
  rowsDrawn r hr := List.mem_append_left _ (h.rowsDrawn r hr)
  saidDrawn e he := List.mem_append_left _ (h.saidDrawn e he)
  heldDrawn k hk := List.mem_append_left _ (h.heldDrawn k hk)

/-- One more message said. -/
theorem Sound.say (hdrawn : e.id ∈ drawn)
    (hnew : ∀ m ∈ archived, m.id ≠ e.id) (hheld : ∀ k ∈ held, k.envelope.id ≠ e.id) :
    Sound rows held (archived ++ [e]) drawn where
  __ := h
  saidDrawn m hm := by
    rcases List.mem_append.mp hm with hm | hm
    · exact h.saidDrawn m hm
    · rw [List.mem_singleton.mp hm]
      exact hdrawn
  saidOnce := by
    rw [List.map_append, List.map_singleton]
    refine h.saidOnce.append (List.nodup_singleton _) ?_
    intro id hid hid'
    obtain ⟨m, hm, rfl⟩ := List.mem_map.mp hid
    exact hnew m hm (List.mem_singleton.mp hid')
  unsaid k hk m hm := by
    rcases List.mem_append.mp hm with hm | hm
    · exact h.unsaid k hk m hm
    · rw [List.mem_singleton.mp hm]
      exact (hheld k hk).symm

/-- One more message held. -/
theorem Sound.hold {k : HeldMessage}
    (hdrawn : k.envelope.id ∈ drawn) (hrows : ∀ r ∈ rows, r.message.id ≠ k.envelope.id)
    (hsaid : ∀ e ∈ archived, e.id ≠ k.envelope.id)
    (hheld : ∀ k' ∈ held, k'.envelope.id ≠ k.envelope.id) :
    Sound rows (held.insert k) archived drawn where
  __ := h
  heldDrawn m hm := by
    rcases mem_insert.mp hm with rfl | ⟨hm, -⟩
    · exact hdrawn
    · exact h.heldDrawn m hm
  heldOnce m hm m' hm' heq := by
    rcases mem_insert.mp hm with rfl | ⟨hin, -⟩ <;> rcases mem_insert.mp hm' with rfl | ⟨hin', -⟩
    · rfl
    · exact absurd heq.symm (hheld m' hin')
    · exact absurd heq (hheld m hin)
    · exact h.heldOnce m hin m' hin' heq
  unqueued m hm := by
    rcases mem_insert.mp hm with rfl | ⟨hm, -⟩
    · exact hrows
    · exact h.unqueued m hm
  unsaid m hm := by
    rcases mem_insert.mp hm with rfl | ⟨hm, -⟩
    · exact hsaid
    · exact h.unsaid m hm

end

/-- The state's own. -/
def IsSound (q : Queues) : Prop := Sound q.table.rows q.held q.archived q.drawn

/-- Memory has what the rows have, in their order, and nothing twice. -/
def InStep (q : Queues) : Prop :=
  (∀ a, q.inboxes a = q.table.load a) ∧ ∀ a, ((q.table.load a).map (·.id)).Nodup

/-! ## Sending -/

theorem publish_eq {routes : Routes} {lands : Bool} :
    q.publish routes e lands = (q, false) ∨ q.publish routes e lands = ({ q with
            inboxes := q.inboxes.push (routes.recipients e) e
            table := (routes.recipients e).foldl (·.insert · e) q.table
            archived := q.archived ++ [e] }, true) := by
  unfold publish
  dsimp only
  split
  · exact .inr rfl
  · exact .inl rfl

/-- A message that is nowhere yet may be sent. -/
theorem Sound.publish (h : Sound q.table.rows held q.archived q.drawn) (routes : Routes)
    (lands : Bool) (hdrawn : e.id ∈ q.drawn) (hnew : ∀ m ∈ q.archived, m.id ≠ e.id)
    (hheld : ∀ k ∈ held, k.envelope.id ≠ e.id) :
    Sound (q.publish routes e lands).1.table.rows held (q.publish routes e lands).1.archived
      (q.publish routes e lands).1.drawn := by
  rcases publish_eq with heq | heq
  · rw [heq]
    exact h
  · rw [heq]
    refine (h.say hdrawn hnew hheld).of_rows fun r hr => ?_
    rcases InboxTable.mem_rows_foldl_insert hr with hr | ⟨-, -, hr⟩
    · exact .inl ⟨r, hr, rfl⟩
    · exact .inr ⟨e, List.mem_append_right _ (List.mem_singleton_self e), by rw [hr]⟩

theorem InStep.publish (h : q.InStep) (routes : Routes) (lands : Bool)
    (hnew : ∀ r ∈ q.table.rows, r.message.id ≠ e.id) :
    (q.publish routes e lands).1.InStep := by
  rcases publish_eq with heq | heq
  · rw [heq]
    exact h
  · rw [heq]
    have hload := InboxTable.load_foldl_insert (routes.recipients_nodup e) q.table e
    refine ⟨fun a => ?_, fun a => ?_⟩
    · rw [hload, ← h.1]
      rfl
    · rw [hload]
      split
      · rw [List.map_append, List.map_singleton]
        refine (h.2 a).append (List.nodup_singleton _) ?_
        intro id hid hid'
        obtain ⟨m, hm, rfl⟩ := List.mem_map.mp hid
        obtain ⟨r, hr, -, rfl⟩ := InboxTable.mem_load.mp hm
        exact hnew r hr (List.mem_singleton.mp hid')
      · exact h.2 a

/-! ## Catching up -/

theorem late_sublist (bytes : Envelope → Nat) (wanted : Envelope → Bool)
    (queued : List MessageId) (said : List Envelope) (count size : Nat) :
    (late bytes wanted queued said count size).Sublist
      (said.filter fun e => decide (e.id ∉ queued)) := by
  induction said generalizing count size with
  | nil => exact List.Sublist.refl _
  | cons e rest ih =>
    rw [late]
    split
    · exact (ih count size).trans ((List.sublist_cons_self e rest).filter _)
    next hskip =>
    have hnew : e.id ∉ queued := by
      intro hmem
      simp [hmem] at hskip
    split
    · exact List.nil_sublist _
    · rw [List.filter_cons_of_pos (by simpa using hnew)]
      exact (ih _ _).cons_cons e

/-! ## Folding -/

/-- The rows a plan keeps are its queue, and it keeps each message once. -/
theorem planQueue_eq {seen : List Envelope} (hrows : (rows.map (·.seq)).Nodup)
    (h : planQueue rows seen = some (queue, duplicates)) :
    (rows.filter fun r => decide (r.seq ∉ duplicates)).map (·.message) = queue ∧
      (queue.map (·.id)).Nodup ∧ (∀ m ∈ queue, ∀ m' ∈ seen, m'.id ≠ m.id) ∧
      ∀ s ∈ duplicates, ∃ r ∈ rows, r.seq = s := by
  induction rows generalizing seen queue duplicates with
  | nil =>
    cases h
    simp
  | cons r rest ih =>
    rw [List.map_cons, List.nodup_cons] at hrows
    have hother : ∀ s ∈ rest, s.seq ≠ r.seq := fun s hs heq =>
      hrows.1 (heq ▸ List.mem_map_of_mem hs)
    rw [planQueue] at h
    split at h
    · split at h
      · obtain ⟨⟨q, d⟩, hrest, heq⟩ := Option.map_eq_some_iff.mp h
        cases heq
        obtain ⟨hq, hnodup, hseen, hd⟩ := ih hrows.2 hrest
        refine ⟨?_, hnodup, hseen, ?_⟩
        · rw [List.filter_cons_of_neg (by simp), ← hq]
          congr 1
          refine List.filter_congr fun s hs => ?_
          simp [hother s hs]
        · simpa using fun s hs => .inr (hd s hs)
      · cases h
    next hnone =>
    obtain ⟨⟨q, d⟩, hrest, heq⟩ := Option.map_eq_some_iff.mp h
    cases heq
    obtain ⟨hq, hnodup, hseen, hd⟩ := ih hrows.2 hrest
    have hkept : r.seq ∉ duplicates := by
      intro hmem
      obtain ⟨s, hs, heq⟩ := hd _ hmem
      exact hother s hs heq
    refine ⟨?_, ?_, ?_, fun s hs => ?_⟩
    · rw [List.filter_cons_of_pos (by simpa using hkept), List.map_cons, hq]
    · rw [List.map_cons, List.nodup_cons]
      refine ⟨fun hmem => ?_, hnodup⟩
      obtain ⟨m, hm, heq⟩ := List.mem_map.mp hmem
      exact hseen m hm r.message List.mem_cons_self heq.symm
    · intro m hm m' hm'
      rcases List.mem_cons.mp hm with rfl | hm
      · simpa using List.find?_eq_none.mp hnone m' hm'
      · exact hseen m hm m' (List.mem_cons_of_mem _ hm')
    · obtain ⟨k, hk, heq⟩ := hd s hs
      exact ⟨k, List.mem_cons_of_mem _ hk, heq⟩

theorem planFold_ok {bytes : Envelope → Nat}
    (h : q.planFold bytes kept retired = some (queue, duplicates)) :
    kept ∉ retired ∧ planQueue (q.table.ofAgents fun a => decide (a ∈ kept :: retired)) [] =
        some (queue, duplicates) := by
  unfold planFold at h
  split at h
  · cases h
  next hkept =>
  push Not at hkept
  split at h
  · cases h
  next hplan =>
  split at h
  · cases h
    exact ⟨hkept.2, hplan⟩
  · cases h

/-- What a fold that lands leaves in the table. -/
theorem load_folded {bytes : Envelope → Nat}
    (h : q.planFold bytes kept retired = some (queue, duplicates)) (a : AgentId) :
    ((q.table.delete fun r => decide (r.seq ∈ duplicates)).rename
        fun a => if a ∈ retired then kept else a).load a =
      if a = kept then queue else if a ∈ retired then [] else q.table.load a := by
  obtain ⟨hkept, hqueue⟩ := planFold_ok h
  obtain ⟨hq, -, -, hdup⟩ := planQueue_eq (q.table.ofAgents_seqs_nodup _) hqueue
  rw [InboxTable.load_rename _ hkept]
  simp only [← List.mem_cons]
  split
  · rw [InboxTable.ofAgents_delete, ← hq]
    simp only [decide_not]
  · split
    · rfl
    next hak har =>
      rw [InboxTable.load, InboxTable.ofAgents_delete, List.filter_eq_self.mpr, InboxTable.load]
      -- the rows a fold deletes are rows of the records it folds
      intro r hr
      obtain ⟨hr, hra⟩ := InboxTable.mem_ofAgents.mp hr
      rw [Bool.not_eq_true', decide_eq_false_iff_not]
      intro hmem
      obtain ⟨s, hs, hseq⟩ := hdup _ hmem
      obtain ⟨hs, hsa⟩ := InboxTable.mem_ofAgents.mp hs
      rw [InboxTable.eq_of_seq_eq hs hr hseq] at hsa
      simp only [decide_eq_true_eq] at hra hsa
      rw [hra] at hsa
      exact (List.mem_cons.mp hsa).elim hak har

/-- A fold leaves memory with the rows' own queue. -/
theorem InStep.commitFold (h : q.InStep) (routes : Routes) (kept : AgentId) (retired : List AgentId)
    (lands : Bool) :
    (q.commitFold routes kept retired lands).InStep := by
  unfold Queues.commitFold
  split
  · exact h
  next queue duplicates hplan =>
  split
  · have hload := load_folded hplan
    obtain ⟨-, hnodup, -, -⟩ :=
      planQueue_eq (q.table.ofAgents_seqs_nodup _) (planFold_ok hplan).2
    refine ⟨fun a => ?_, fun a => ?_⟩
    · rw [hload, ← h.1]
    · rw [hload]
      split
      · exact hnodup
      · split
        · exact List.nodup_nil
        · exact h.2 a
  · exact h

/-! ## Resuming -/

/-- The rows of the two records hold no message twice and stand in the order of
the time they were sent, the prior record's first of two sent at one time. -/
def Orderly (q : Queues) (prior caller : AgentId) : Prop :=
  (∀ m ∈ q.table.load prior, ∀ m' ∈ q.table.load caller, m.id ≠ m'.id) ∧
    (q.table.ofAgents fun a => decide (a = prior ∨ a = caller)).Pairwise fun r s =>
      r.message.sentAt < s.message.sentAt ∨
        (r.message.sentAt = s.message.sentAt ∧ (s.agent = prior → r.agent = prior))

instance (q : Queues) (prior caller : AgentId) : Decidable (q.Orderly prior caller) :=
  inferInstanceAs (Decidable (_ ∧ _))

/-- The rows of both records, as one was told from the other. -/
theorem ofAgents_pair {t : InboxTable} (hne : prior ≠ caller) :
    ((t.ofAgents fun a => decide (a = prior ∨ a = caller)).filter
        fun r => decide (r.agent = prior)) = t.ofAgents (fun a => decide (a = prior)) ∧
      ((t.ofAgents fun a => decide (a = prior ∨ a = caller)).filter
        fun r => !decide (r.agent = prior)) = t.ofAgents fun a => decide (a = caller) := by
  unfold InboxTable.ofAgents
  rw [List.filter_filter, List.filter_filter]
  refine ⟨List.filter_congr fun r _ => ?_, List.filter_congr fun r _ => ?_⟩
  · by_cases h : r.agent = prior <;> simp [h]
  · by_cases h : r.agent = prior
    · simp [h, hne]
    · simp [h]

/-- The two queues one after the other hold what the rows of both do. -/
theorem load_append_perm (t : InboxTable) (hne : prior ≠ caller) :
    (t.load prior ++ t.load caller).Perm
      ((t.ofAgents fun a => decide (a = prior ∨ a = caller)).map (·.message)) := by
  obtain ⟨hp, hc⟩ := ofAgents_pair hne
  rw [InboxTable.load, InboxTable.load, ← List.map_append, ← hp, ← hc]
  exact (List.filter_append_perm _ _).map _

/-- Sorted by the time they were sent, the two queues are the rows of both
exactly when these were in that order already. -/
theorem sortBy_load_eq_iff (t : InboxTable) (hne : prior ≠ caller)
    (hnodup : ((t.load prior ++ t.load caller).map (·.id)).Nodup) :
    sortBy (·.sentAt) (t.load prior ++ t.load caller) =
        (t.ofAgents fun a => decide (a = prior ∨ a = caller)).map (·.message) ↔
      (t.ofAgents fun a => decide (a = prior ∨ a = caller)).Pairwise fun r s =>
        r.message.sentAt < s.message.sentAt ∨
          (r.message.sentAt = s.message.sentAt ∧ (s.agent = prior → r.agent = prior)) := by
  have hrows := ((load_append_perm t hne).map (·.id)).nodup_iff.mp hnodup
  rw [List.map_map] at hrows
  obtain ⟨hp, hc⟩ := ofAgents_pair hne
  rw [InboxTable.load, InboxTable.load, ← List.map_append, ← hp, ← hc]
  generalize t.ofAgents (fun a => decide (a = prior ∨ a = caller)) = rows at hrows ⊢
  rw [← map_sortBy]
  have hexact := sortBy_partition_eq_iff (fun r : InboxRow => r.message.sentAt)
    (fun r => decide (r.agent = prior)) rows
  simp only [decide_eq_true_eq] at hexact
  rw [← hexact]
  constructor
  · intro h
    refine eq_of_map_eq (fun r hr s hs heq => ?_) h
    rw [(sortBy_perm _ _).mem_iff, (List.filter_append_perm _ _).mem_iff] at hr
    exact List.inj_on_of_nodup_map hrows hr hs (congrArg Envelope.id heq)
  · intro h
    rw [h]

theorem resumeInput_inStep_iff (h : q.InStep) (hne : prior ≠ caller) :
    (q.resumeInput prior caller true).InStep ↔ q.Orderly prior caller := by
  have hload := q.table.load_rename (p := (· = caller)) hne
  have hnodup : ((q.table.load prior ++ q.table.load caller).map (·.id)).Nodup ↔
      ∀ m ∈ q.table.load prior, ∀ m' ∈ q.table.load caller, m.id ≠ m'.id := by
    rw [List.map_append, List.nodup_append]
    simp only [h.2, true_and, List.mem_map, forall_exists_index, and_imp, forall_apply_eq_imp_iff₂]
  have hperm := ((load_append_perm q.table hne).map (·.id)).nodup_iff
  unfold resumeInput Orderly
  rw [if_neg (by simp [hne]), ← hnodup]
  constructor
  · rintro ⟨hsame, honce⟩
    have hsame := hsame prior
    have honce := honce prior
    simp only [hload, if_true] at hsame honce
    rw [← hperm] at honce
    rw [h.1, h.1, sortBy_load_eq_iff q.table hne honce] at hsame
    exact ⟨honce, hsame⟩
  · rintro ⟨honce, hsorted⟩
    refine ⟨fun a => ?_, fun a => ?_⟩
    · simp only [hload, h.1]
      rw [(sortBy_load_eq_iff q.table hne honce).mpr hsorted]
    · simp only [hload]
      split
      · exact hperm.mp honce
      · split
        · exact List.nodup_nil
        · exact h.2 a

/-! ## Runs -/

/-- The ids an operation draws are new. -/
def Fresh (q : Queues) : Op → Prop
  | .send _ e _ => e.id ∉ q.drawn
  | .hold _ e card _ => e.id ∉ q.drawn ∧ card.id ∉ q.drawn ∧ e.id ≠ card.id
  | _ => True

instance (q : Queues) (op : Op) : Decidable (q.Fresh op) := by
  cases op <;> unfold Fresh <;> infer_instance

/-- What the operation that resumes a session asks of the rows. -/
def Merges (q : Queues) : Op → Prop
  | .resume prior caller lands => prior = caller ∨ lands = false ∨ q.Orderly prior caller
  | _ => True

instance (q : Queues) (op : Op) : Decidable (q.Merges op) := by
  cases op <;> unfold Merges <;> infer_instance

theorem Sound.fresh (h : Sound rows held archived drawn) {id : MessageId} (hid : id ∉ drawn) :
    (∀ r ∈ rows, r.message.id ≠ id) ∧ (∀ e ∈ archived, e.id ≠ id) ∧
      ∀ k ∈ held, k.envelope.id ≠ id :=
  ⟨fun r hr heq => hid (heq ▸ h.rowsDrawn r hr), fun e he heq => hid (heq ▸ h.saidDrawn e he),
    fun k hk heq => hid (heq ▸ h.heldDrawn k hk)⟩

theorem publish_frame {routes : Routes} {lands : Bool} :
    (q.publish routes e lands).1.held = q.held ∧ (q.publish routes e lands).1.drawn = q.drawn := by
  rcases publish_eq with heq | heq <;> rw [heq] <;> exact ⟨rfl, rfl⟩

theorem mem_publish {routes : Routes} {lands : Bool} :
    (∀ r ∈ (q.publish routes e lands).1.table.rows, r ∈ q.table.rows ∨ r.message = e) ∧
      ∀ m ∈ (q.publish routes e lands).1.archived, m ∈ q.archived ∨ m = e := by
  rcases publish_eq with heq | heq <;> rw [heq]
  · exact ⟨fun r hr => .inl hr, fun m hm => .inl hm⟩
  · refine ⟨fun r hr => ?_, fun m hm => by simpa using hm⟩
    exact (InboxTable.mem_rows_foldl_insert hr).imp_right fun ⟨_, _, h⟩ => h

theorem IsSound.send (h : q.IsSound) (routes : Routes) (lands : Bool) (hnew : e.id ∉ q.drawn) :
    (q.send routes e lands).IsSound := by
  obtain ⟨-, hsaid, hheld⟩ := Sound.fresh h hnew
  have hdrawn := Sound.draw h [e.id]
  unfold IsSound Queues.send
  rw [(publish_frame ..).1]
  exact Sound.publish (q := q.draw [e.id]) hdrawn routes lands
    (List.mem_append_right _ (List.mem_singleton_self _)) hsaid hheld

theorem InStep.send (h : q.InStep) (hs : q.IsSound) (routes : Routes) (lands : Bool)
    (hnew : e.id ∉ q.drawn) : (q.send routes e lands).InStep :=
  InStep.publish (q := q.draw [e.id]) h routes lands (Sound.fresh hs hnew).1

theorem IsSound.holdMessage (h : q.IsSound) (routes : Routes) (lands : Bool) (hnew : e.id ∉ q.drawn)
    (hcard : card.id ∉ q.drawn) (hne : e.id ≠ card.id) :
    (q.holdMessage routes e card lands).IsSound := by
  obtain ⟨hrows, hsaid, hheld⟩ := Sound.fresh h hnew
  obtain ⟨-, hsaid', hheld'⟩ := Sound.fresh h hcard
  have hpub := Sound.publish (q := q.draw [e.id, card.id]) (e := card)
    (Sound.draw h [e.id, card.id]) routes lands
    (List.mem_append_right _ (by simp)) hsaid' hheld'
  obtain ⟨hheldEq, hdrawnEq⟩ := publish_frame
  obtain ⟨hrows', hsaid''⟩ := mem_publish
  unfold Queues.holdMessage
  split
  · next q' heq =>
    rw [heq] at hpub hheldEq hdrawnEq hrows' hsaid''
    rw [hheldEq]
    refine hpub.hold (k := ⟨card.id, e⟩) ?_ (fun r hr => ?_) (fun m hm => ?_) hheld
    · rw [hdrawnEq]
      exact List.mem_append_right _ (by simp)
    · rcases hrows' r hr with hr | hr
      · exact hrows r hr
      · rw [hr]
        exact hne.symm
    · rcases hsaid'' m hm with hm | hm
      · exact hsaid m hm
      · rw [hm]
        exact hne.symm
  next q' heq =>
  rw [heq] at hpub hheldEq
  unfold IsSound
  rw [hheldEq]
  exact hpub

theorem InStep.holdMessage (h : q.InStep) (hs : q.IsSound) (routes : Routes) (lands : Bool)
    (hcard : card.id ∉ q.drawn) :
    (q.holdMessage routes e card lands).InStep := by
  have hpub := InStep.publish (q := q.draw [e.id, card.id]) h routes lands (Sound.fresh hs hcard).1
  unfold Queues.holdMessage
  split <;> next q' heq =>
    rw [heq] at hpub
    exact hpub

theorem IsSound.release (h : q.IsSound) (routes : Routes) (question : MessageId) (lands : Bool) :
    (q.release routes question lands).IsSound := by
  unfold Queues.release
  split
  · exact h
  next k hk =>
  obtain ⟨hmem, hquestion⟩ := get?_eq_some.mp hk
  have hothers : ∀ k' ∈ q.held.erase question, k'.envelope.id ≠ k.envelope.id := by
    intro k' hk' heq
    obtain ⟨hk', hne⟩ := mem_erase.mp hk'
    rw [Sound.heldOnce h k' hk' k hmem heq] at hne
    exact hne hquestion
  have hpub := Sound.publish (Sound.of_held h fun k' hk' => (mem_erase.mp hk').1) routes
    lands (Sound.heldDrawn h k hmem) (Sound.unsaid h k hmem) hothers
  obtain ⟨hheldEq, -⟩ := publish_frame
  split
  · next q' heq =>
    rw [heq] at hpub hheldEq
    rw [hheldEq]
    exact hpub
  next q' heq =>
  rcases publish_eq with hq | hq
  · rw [hq] at heq
    cases heq
    exact h
  · rw [hq] at heq
    cases heq

theorem InStep.release (h : q.InStep) (hs : q.IsSound) (routes : Routes) (question : MessageId)
    (lands : Bool) : (q.release routes question lands).InStep := by
  unfold Queues.release
  split
  · exact h
  next k hk =>
  have hpub := h.publish routes lands (Sound.unqueued hs k (get?_eq_some.mp hk).1)
  split <;> next q' heq =>
    rw [heq] at hpub
    exact hpub

theorem IsSound.ackInbox (h : q.IsSound) (agent : AgentId) (messages : List MessageId)
    (lands : Bool) : (q.ackInbox agent messages lands).IsSound := by
  unfold Queues.ackInbox
  dsimp only
  split
  · exact h
  · exact Sound.of_rows h fun r hr => .inl ⟨r, (List.mem_filter.mp hr).1, rfl⟩

theorem InStep.ackInbox (h : q.InStep) (agent : AgentId) (messages : List MessageId)
    (lands : Bool) : (q.ackInbox agent messages lands).InStep := by
  unfold Queues.ackInbox
  dsimp only
  split
  · exact h
  · generalize ((q.inboxes agent).map (·.id)).filter _ = acknowledged
    have hload := InboxTable.load_delete q.table agent
      (g := fun m => decide (m.id ∈ acknowledged)) fun r => Bool.decide_and ..
    simp only [← decide_not] at hload
    refine ⟨fun a => ?_, fun a => ?_⟩
    · rw [hload, ← h.1]
    · rw [hload]
      split
      · exact (h.2 a).sublist (List.filter_sublist.map _)
      · exact h.2 a

theorem IsSound.catchUp (h : q.IsSound) (routes : Routes) (agent : AgentId)
    (wanted : Envelope → Bool) (lands : Bool) :
    (q.catchUp routes agent wanted lands).IsSound := by
  unfold Queues.catchUp
  split
  · refine Sound.of_rows h fun r hr => ?_
    rcases InboxTable.mem_rows_foldl_insert hr with hr | ⟨m, hm, hr⟩
    · exact .inl ⟨r, hr, rfl⟩
    · exact .inr ⟨m, (List.mem_filter.mp ((late_sublist ..).subset hm)).1, by rw [hr]⟩
  · exact h

theorem InStep.catchUp (h : q.InStep) (hs : q.IsSound) (routes : Routes) (agent : AgentId)
    (wanted : Envelope → Bool) (lands : Bool) :
    (q.catchUp routes agent wanted lands).InStep := by
  unfold Queues.catchUp
  dsimp only
  split
  · have hlate := late_sublist routes.bytes wanted ((q.inboxes agent).map (·.id)) q.archived
      (q.inboxes agent).length ((q.inboxes agent).foldl (fun sum m => sum + routes.bytes m) 0)
    generalize late routes.bytes wanted _ q.archived _ _ = messages at hlate ⊢
    have hload := InboxTable.load_foldl_insert_messages messages q.table agent
    refine ⟨fun a => ?_, fun a => ?_⟩
    · rw [hload, ← h.1]
      by_cases ha : a = agent <;> simp [ha]
    · rw [hload]
      split
      · next ha =>
        rw [List.map_append]
        refine (h.2 a).append
          (Sound.saidOnce hs |>.sublist ((hlate.trans List.filter_sublist).map _)) ?_
        intro id hid hid'
        obtain ⟨m, hm, rfl⟩ := List.mem_map.mp hid'
        have hnew := (List.mem_filter.mp (hlate.subset hm)).2
        rw [decide_eq_true_eq, h.1, ← ha] at hnew
        exact hnew hid
      · exact h.2 a
  · exact h

theorem IsSound.remove (h : q.IsSound) (agent : AgentId) (lands : Bool) :
    (q.remove agent lands).IsSound := by
  unfold Queues.remove
  split
  · exact Sound.of_rows h fun r hr => .inl ⟨r, (List.mem_filter.mp hr).1, rfl⟩
  · exact h

theorem InStep.remove (h : q.InStep) (agent : AgentId) (lands : Bool) :
    (q.remove agent lands).InStep := by
  unfold Queues.remove
  split
  · have hload := InboxTable.load_delete q.table agent (p := fun r => decide (r.agent = agent))
      (g := fun _ => true) fun r => (Bool.and_true _).symm
    simp only [Bool.not_true, List.filter_false] at hload
    refine ⟨fun a => ?_, fun a => ?_⟩
    · rw [hload, ← h.1]
    · rw [hload]
      split
      · exact List.nodup_nil
      · exact h.2 a
  · exact h

theorem IsSound.rename (h : q.IsSound) {t : InboxTable} (ht : ∀ r ∈ t.rows, r ∈ q.table.rows)
    (f : AgentId → AgentId) :
    Sound (t.rename f).rows q.held q.archived q.drawn := by
  refine Sound.of_rows h fun r hr => ?_
  obtain ⟨s, hs, rfl⟩ := List.mem_map.mp hr
  exact .inl ⟨s, ht s hs, rfl⟩

theorem IsSound.commitFold (h : q.IsSound) (routes : Routes) (kept : AgentId)
    (retired : List AgentId) (lands : Bool) :
    (q.commitFold routes kept retired lands).IsSound := by
  unfold Queues.commitFold
  split
  · exact h
  · split
    · exact h.rename (fun r hr => (List.mem_filter.mp hr).1) _
    · exact h

theorem IsSound.resumeInput (h : q.IsSound) (prior caller : AgentId) (lands : Bool) :
    (q.resumeInput prior caller lands).IsSound := by
  unfold Queues.resumeInput
  split
  · exact h
  · exact h.rename (fun r hr => hr) _

theorem IsSound.step (h : q.IsSound) (hop : q.Fresh op) : (q.step op).IsSound := by
  cases op with
  | send routes _ lands => exact h.send routes lands hop
  | hold routes _ _ lands => exact h.holdMessage routes lands hop.1 hop.2.1 hop.2.2
  | release routes question lands => exact h.release routes question lands
  | drop =>
    unfold Queues.step dropHeld
    dsimp only
    split
    · exact Sound.of_held h fun k hk => (mem_erase.mp hk).1
    · exact h
  | ack agent messages lands => exact h.ackInbox agent messages lands
  | catchUp routes agent wanted lands => exact h.catchUp routes agent wanted lands
  | remove agent lands => exact h.remove agent lands
  | fold routes kept retired lands => exact h.commitFold routes kept retired lands
  | resume prior caller lands => exact h.resumeInput prior caller lands
  | reopen => exact h

/-- One step keeps memory and disk together exactly when it is no resumption
that merges out of order. -/
theorem step_inStep_iff (h : q.InStep) (hs : q.IsSound) (hop : q.Fresh op) :
    (q.step op).InStep ↔ q.Merges op := by
  cases op with
  | send routes _ lands => exact iff_of_true (h.send hs routes lands hop) trivial
  | hold routes _ _ lands => exact iff_of_true (h.holdMessage hs routes lands hop.2.1) trivial
  | release routes question lands => exact iff_of_true (h.release hs routes question lands) trivial
  | drop =>
    refine iff_of_true ?_ trivial
    unfold Queues.step dropHeld
    dsimp only
    split <;> exact h
  | ack agent messages lands => exact iff_of_true (h.ackInbox agent messages lands) trivial
  | catchUp routes agent wanted lands =>
    exact iff_of_true (h.catchUp hs routes agent wanted lands) trivial
  | remove agent lands => exact iff_of_true (h.remove agent lands) trivial
  | fold routes kept retired lands =>
    exact iff_of_true (h.commitFold routes kept retired lands) trivial
  | resume prior caller lands =>
    unfold Queues.step Merges
    by_cases hne : prior = caller
    · simp [resumeInput, hne, h]
    · cases lands with
      | false => simp [resumeInput, h]
      | true => simp [hne, resumeInput_inStep_iff h hne]
  | reopen => exact iff_of_true ⟨fun _ => rfl, h.2⟩ trivial

theorem empty_isSound : empty.IsSound :=
  ⟨by simp [empty, InboxTable.empty], by simp [empty], by simp [empty], by simp [empty],
    by simp [empty], by simp [empty], by simp [empty]⟩

/-- Memory and disk agree in every state of a run exactly when each resumption
in it that lands finds the rows of its two records apart and in order. -/
theorem inStep_iff_orderly (ops : List Op) (hfresh : Each step Fresh empty ops) :
    Always step InStep empty ops ↔ Each step Merges empty ops :=
  always_iff_each empty_isSound ⟨fun _ => rfl, fun _ => List.nodup_nil⟩
    (fun _ _ hs hop => hs.step hop) (fun _ _ hs hop h => step_inStep_iff h hs hop) hfresh

/-- Two records of one session, both of which a message to everybody reaches. -/
def both : Routes := ⟨fun _ => 0, fun _ => [⟨"prior"⟩, ⟨"caller"⟩]⟩

def letter (id : String) (destination : Destination) (sentAt : Time) : Envelope :=
  ⟨⟨id⟩, "sender", destination, "note", "", none, sentAt⟩

/-- A message held for the person is released after a later one was sent, to the
other of two records that are then made one. -/
def heldBack : List Op :=
  [.hold both (letter "m1" (.agent ⟨"caller"⟩) 1) (letter "card" (.agent ⟨"user"⟩) 2) true,
    .send both (letter "m2" (.agent ⟨"prior"⟩) 3) true, .release both ⟨"card"⟩ true,
    .resume ⟨"prior"⟩ ⟨"caller"⟩ true]

/-- A message to everybody is queued to both records before they are made one. -/
def reachedBoth : List Op :=
  [.send both (letter "m1" .broadcast 1) true, .resume ⟨"prior"⟩ ⟨"caller"⟩ true]

/-- The first run leaves the two orders apart, the second a message twice. -/
theorem heldBack_outOfStep :
    (¬ ∀ ops : List Op, Each step Fresh empty ops → Always step InStep empty ops) ∧
      (run step empty heldBack).inboxes ⟨"prior"⟩ ≠ (run step empty heldBack).table.load ⟨"prior"⟩ ∧
      ¬ (((run step empty reachedBoth).inboxes ⟨"prior"⟩).map (·.id)).Nodup := by
  have hfirst : (run step empty heldBack).inboxes ⟨"prior"⟩ ≠
      (run step empty heldBack).table.load ⟨"prior"⟩ := by decide
  exact ⟨fun h => hfirst ((h heldBack (by decide)).last.1 ⟨"prior"⟩), hfirst, by decide⟩

/-- One message to each, in order; one of them is acknowledged after the records
are one. -/
def inOrder : List Op :=
  [.send both (letter "m1" (.agent ⟨"prior"⟩) 1) true,
    .send both (letter "m2" (.agent ⟨"caller"⟩) 2) true, .resume ⟨"prior"⟩ ⟨"caller"⟩ true,
    .ack ⟨"prior"⟩ [⟨"m1"⟩] true]

theorem inOrder_inStep : Always step InStep empty inOrder :=
  (inStep_iff_orderly inOrder (by decide)).mpr (by decide)

end Queues

end AgentDocker.Daemon
