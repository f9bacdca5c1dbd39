import AgentDocker.Lib.Runs
import AgentDocker.Proofs.Answers

/-!
# The life of a question

Whatever order the requests come in, a question ends once, is open until then,
and its answer reaches the asker with its route said once; except that a held
message can be dropped after its card was answered by a reply, which closes the
card again. `lifecycle_iff` says that this is the only exception: the runs that
go well are those that drop no message whose card is closed.

Every step but two keeps what it has to keep without a condition (`Keeps`). The
two are about held messages: one keeps a message that was not kept, and one
spends the id of a message that was.
-/

namespace AgentDocker.Daemon

open AgentDocker.Core Lib Keyed

open QuestionEvent

namespace Questions

variable {s s' : Questions} {m : MessageId}

/-! ## The sweep -/

variable {human : AgentId} {e : Envelope} {ids : List MessageId} {op : Op} {q : Question}
  {w : Setting} {decider prompt : String} {now swept : Time}

theorem sortIds_nodup (h : ids.Nodup) : (sortIds ids).Nodup :=
  (List.perm_insertionSort _ ids).nodup_iff.mpr h

theorem mem_sortIds : m ∈ sortIds ids ↔ m ∈ ids :=
  (List.perm_insertionSort _ ids).mem_iff

theorem closeExpired_keeps (s : Questions) (now : Time) : Keeps s (s.closeExpired now) := by
  have hquiet : Quiet s (s.closeExpired now) := by
    refine ⟨rfl, Nat.le_refl _, ⟨_, List.append_assoc _ _ _, ?_⟩, rfl, rfl, rfl, fun _ h => h⟩
    intro e he
    rcases List.mem_append.mp he with he | he <;>
    · obtain ⟨_, -, rfl⟩ := List.mem_map.mp he
      rfl
  refine hquiet.keeps (fun hs => ?_) (fun x hx => (mem_filter.mp hx).1)
    (fun q hq => ⟨q, (mem_filter.mp hq).1, rfl, rfl⟩)
  have hnodup : ((s.questions.rows.filter (·.expired now)).map (·.id)).Nodup :=
    s.questions.nodup.sublist (List.filter_sublist.map _)
  have hclosed := hs.tracks.finishesAll (f := (.questionClosed · none)) (by simp [opens])
    (by simp [ends]) (sortIds_nodup hnodup) (by
      intro m hm
      obtain ⟨q, hq, rfl⟩ := List.mem_map.mp (mem_sortIds.mp hm)
      exact ⟨q, (List.mem_filter.mp hq).1, rfl⟩)
  refine (hclosed.sayAll ?_).congr fun m => ?_
  · intro d hd m
    obtain ⟨_, -, rfl⟩ := List.mem_map.mp hd
    exact ⟨rfl, rfl⟩
  · simp only [closeExpired, Open]
    rw [exists_filter (p := fun m => decide (m ∉ _))]
    simp

/-- The daemon's default answer is a message like any other. -/
theorem Fresh.proper_default (h : s.Fresh) (hq : q ∈ s.questions) (payload : String) (now : Time) :
    s.draw.Proper ⟨s.defaultEnvelope q payload now, none, .none, some q.id⟩ where
  reserved := h.reserved_draw
  asks := by simp
  settles := by simp [DocumentTransition.closes]
  defaults q' hq' hid := by
    rw [eq_of_key_eq hq' hq (Option.some.inj hid).symm]
    exact ⟨rfl, rfl⟩

theorem stale_keeps (w : Setting) (now : Time) (s : Questions) (id : MessageId) :
    Keeps s (stale w now s id) := by
  unfold stale
  split
  · exact .refl s
  next q hget =>
  have hq : q ∈ s.questions := (get?_eq_some.mp (Option.filter_eq_some_iff.mp hget).1).1
  split
  · -- it is marked, and stays open
    refine Quiet.keeps ⟨rfl, Nat.le_refl _, ⟨_, rfl, by simp [quiet]⟩, rfl, rfl, rfl, fun _ h => h⟩
      (fun hs => ?_) (fun _ h => h) (fun q' hq' => ?_)
    · refine (hs.tracks.say (by simp [opens]) (by simp [ends])).congr fun m => ?_
      have hopen : q.id = m → s.Open m := fun hid => ⟨q, hq, hid⟩
      rw [Open, Open, exists_insert]
      exact ⟨.inl, fun h => h.elim (fun h => h) hopen⟩
    · rcases mem_insert.mp hq' with rfl | ⟨hq', -⟩
      · exact ⟨q, hq, rfl, rfl⟩
      · exact ⟨q', hq', rfl, rfl⟩
  · split
    · exact .refl s
    · -- the id of the default answer was nobody's
      intro hs
      have hp := hs.fresh.proper_default hq
      refine ⟨publishRouted_consistent (hp _ _) hs.draw, ?_⟩
      exact ((s.draw_grows _).trans (publishRouted_grows (hp _ _))).unspent rfl
  · -- it is closed
    refine Quiet.keeps ⟨rfl, Nat.le_refl _, ⟨_, rfl, by simp [quiet]⟩, rfl, rfl, rfl, fun _ h => h⟩
      (fun hs => ?_) (fun _ h => h)
      (fun q' hq' => ⟨q', (mem_erase.mp hq').1, rfl, rfl⟩)
    have hsaid := hs.tracks.say (e := .questionStale q.id .withdraw) (by simp [opens])
      (by simp [ends])
    have hclosed := hsaid.finishes (e := .questionClosed q.id none) ⟨q, hq, rfl⟩
      (by simp [opens]) (by simp [ends])
    rw [List.append_assoc, List.singleton_append] at hclosed
    exact hclosed.congr fun m => exists_erase.symm

theorem staleQuestions_keeps (s : Questions) (w : Setting) : Keeps s (s.staleQuestions w now) := by
  unfold staleQuestions
  generalize sortIds ((s.questions.rows.filter (due now)).map (·.id)) = ids
  induction ids generalizing s with
  | nil => exact .refl s
  | cons id _ ih => exact (stale_keeps w now s id).trans (ih _)

theorem expireQuestions_keeps (s : Questions) (w : Setting) (now : Time) :
    Keeps s (s.expireQuestions w now) :=
  (s.closeExpired_keeps now).trans (staleQuestions_keeps _ w)

/-! ## Messages -/

/-- A message whose id was drawn for it. -/
theorem Consistent.proper_own (hs : s.Consistent) (w : Setting) (swept : Time) (e : Envelope)
    (question : Option Question) (document : DocumentTransition) (he : e.id = s.drawn)
    (hq : ∀ q, question = some q → q.id = s.drawn ∧ e.replyTo = none)
    (hd : document.closes = none) :
    (s.draw.expireQuestions w swept).Proper ⟨e, question, document, none⟩ where
  reserved := by
    rw [he]
    exact (s.draw.expireQuestions_keeps w swept hs.draw).2.reserved _ hs.fresh.reserved_draw id
  asks q heq := ⟨(hq q heq).1.trans he.symm, (hq q heq).2, rfl, hd⟩
  settles := by simp [hd]
  defaults := by simp

section

variable (s : Questions) (w : Setting)

theorem publish_keeps (swept : Time) (e : Envelope)
    (question : Option Question) (document : DocumentTransition) (he : e.id = s.drawn)
    (hq : ∀ q, question = some q → q.id = s.drawn ∧ e.replyTo = none)
    (hd : document.closes = none) :
    Keeps s (s.draw.publish w swept e question document).1 := by
  intro hs
  have hp := hs.proper_own w swept e question document he hq hd
  obtain ⟨hs', hg⟩ := s.draw.expireQuestions_keeps w swept hs.draw
  refine ⟨publishRouted_consistent hp hs', ?_⟩
  exact (((s.draw_grows _).trans hg.weaken).trans (publishRouted_grows hp)).unspent he

theorem openQuestion_keeps (now swept : Time) (d : Draft) :
    Keeps s (s.openQuestion w now swept d).1 := by
  unfold openQuestion
  split
  · exact .refl s
  · split
    · refine s.publish_keeps w swept _ _ _ rfl ?_ rfl
      rintro q ⟨⟩
      exact ⟨rfl, rfl⟩
    · exact .refl s

theorem send_keeps (swept : Time) (e : Envelope) : Keeps s (s.send w swept e).1 :=
  s.publish_keeps w swept _ _ _ rfl (by simp) rfl

theorem ask_keeps (now swept : Time) (d : Draft) : Keeps s (s.ask w now swept d).1 := by
  have hopen := s.openQuestion_keeps w now swept d
  unfold ask
  split
  · next s' message heq =>
    rw [heq] at hopen
    refine hopen.trans (Quiet.keeps ?_ (fun hs => hs.tracks) (fun _ h => h)
      (fun q hq => ⟨q, hq, rfl, rfl⟩))
    exact ⟨rfl, Nat.le_refl _, ⟨[], by simp⟩, rfl, rfl, rfl, fun _ => List.mem_cons_of_mem _⟩
  · exact hopen

end

/-- What holds between any two steps. -/
structure Sound (s : Questions) : Prop where
  consistent : s.Consistent
  kept : s.Kept

theorem Keeps.sound (h : Keeps s s') (hs : s.Sound) : s'.Sound := by
  obtain ⟨hconsistent, hgrows⟩ := h hs.consistent
  exact ⟨hconsistent, hgrows.kept hs.kept fun _ _ => id⟩

/-- A question that is out is open, and alone under its id. -/
theorem deliver_asked {p : Publication} (hs : s.Consistent) (hp : s.Proper p)
    (hq : p.question = some q) :
    (s.deliver w p e).Opened q.id ∧ ∀ q' ∈ (s.deliver w p e).questions, q'.id = q.id → q' = q := by
  refine ⟨⟨.questionOpened q.id q.expiresAt, ?_, by simp [opens]⟩, fun q' hq' hid => ?_⟩
  · exact mem_deliver_events.mpr (.inr (.inl (mem_announced.mpr
      (.inr (.inr (.inr (.inl ⟨q, hq, rfl⟩)))))))
  · rcases mem_deliver_questions hq' with hasked | hold
    · exact Option.some.inj (hasked.symm.trans hq)
    · have hopened := ((hs.tracks.live_iff q.id).mp ⟨q', hold, hid⟩).1
      exact absurd ((hp.asks q hq).1 ▸ hopened) hp.reserved.unopened

/-! ## Held messages -/

theorem Consistent.withHeld (hs : s.Consistent) (heldMessages : Keyed HeldMessage.question) :
    Consistent { s with heldMessages } :=
  Quiet.consistent (s := s) ⟨rfl, Nat.le_refl _, ⟨[], by simp⟩, rfl, rfl, rfl, fun _ h => h⟩ hs
    hs.tracks

theorem Grows.erase {spent : MessageId → Prop} (h : Grows spent s s') (id : MessageId) :
    Grows spent s { s' with heldMessages := s'.heldMessages.erase id } where
  __ := h
  reserved m hm hne := { h.reserved m hm hne with }
  held x hx := h.held x (mem_erase.mp hx).1

/-- One more message kept. -/
theorem Kept.insert {x : HeldMessage} (hk : s.Kept) (hreserved : s.Reserved x.envelope.id)
    (hnew : ∀ y ∈ s.heldMessages, y.envelope.id ≠ x.envelope.id) (hcard : s.Card x) :
    Kept { s with heldMessages := s.heldMessages.insert x } where
  reserved y hy := by
    rcases mem_insert.mp hy with rfl | ⟨hy, -⟩
    · exact { hreserved with }
    · exact { hk.reserved y hy with }
  distinct y hy z hz heq := by
    rcases mem_insert.mp hy with rfl | ⟨hy', -⟩ <;> rcases mem_insert.mp hz with rfl | ⟨hz', -⟩
    · rfl
    · exact absurd heq.symm (hnew z hz')
    · exact absurd heq (hnew y hy')
    · exact hk.distinct y hy' z hz' heq
  cards y hy := by
    rcases mem_insert.mp hy with rfl | ⟨hy, -⟩
    · exact ⟨hcard.opened, hcard.remote⟩
    · exact ⟨(hk.cards y hy).opened, (hk.cards y hy).remote⟩

/-- The card goes out as any question does, and from then on the message is
kept. -/
theorem keepHeld_sound {held : HeldMessage} (hquestion : held.question = s.drawn)
    (hreserved : s.Reserved held.envelope.id)
    (hnew : ∀ x ∈ s.heldMessages, x.envelope.id ≠ held.envelope.id)
    (hremote : held.envelope.sender ≠ human.id) (hs : s.Sound) :
    (s.keepHeld w now swept held human prompt).1.Sound := by
  have hq : ∀ q, some (card held.envelope held.question human now) = some q →
      q.id = s.drawn ∧ (cardMessage held human prompt now).replyTo = none := by
    rintro q ⟨⟩
    exact ⟨hquestion, rfl⟩
  have hp := hs.consistent.proper_own w swept (cardMessage held human prompt now) _ (.holds held)
    hquestion hq rfl
  have hkeeps := s.publish_keeps w swept (cardMessage held human prompt now) _ (.holds held)
    hquestion hq rfl
  obtain ⟨hs₁, hg₁⟩ := s.draw.expireQuestions_keeps w swept hs.consistent.draw
  unfold keepHeld
  rw [publish] at hkeeps ⊢
  rcases publishRouted_cases _ w ⟨_, _, _, _⟩ with ⟨heq, hrefused⟩ | ⟨e, he, heq⟩
  · split
    · next s₂ m hsent => exact absurd (congrArg Prod.snd hsent) (hrefused m)
    · exact hkeeps.sound hs
  · rw [heq] at hkeeps ⊢
    obtain ⟨hs₂, hg₂⟩ := hkeeps hs.consistent
    have hk₂ := (hkeeps.sound hs).kept
    obtain ⟨hopened, halone⟩ := deliver_asked (e := e) (w := w) hs₁ hp rfl
    refine ⟨hs₂.withHeld _, hk₂.insert (hg₂.reserved _ hreserved id)
      (fun x hx => hnew x (hg₂.held x hx)) ⟨hopened, fun q hq hid => ?_⟩⟩
    rw [halone q hq hid]
    exact ⟨human, rfl, hremote⟩

theorem holdMessage_sound (hremote : e.sender ≠ human.id) (hs : s.Sound) :
    (s.holdMessage w now swept e human prompt).1.Sound := by
  have hdraw : Keeps s s.draw := fun hs => ⟨hs.draw, s.draw_grows _⟩
  refine keepHeld_sound rfl hs.consistent.fresh.reserved_draw (fun x hx heq => ?_) hremote
    (hdraw.sound hs)
  have heq : x.envelope.id = s.drawn := heq
  exact s.not_drawn (heq ▸ (hs.kept.reserved x hx).drawn)

theorem dropHeld_singleton {h : HeldMessage} {closing : QuestionEvent} :
    s.dropHeld [h] decider (some closing) =
      { s with
        events := s.events ++ [closing] ++ [.heldMessageDropped h.envelope.id h.question decider]
        questions := s.questions.erase h.question
        heldMessages := s.heldMessages.erase h.question } := by
  simp [dropHeld, Keyed.erase]

/-- A card withdrawn or refused takes its message with it. -/
theorem dropHeld_keeps {h : HeldMessage} {closing : QuestionEvent} (hopen : s.Open h.question)
    (hquiet : closing.quiet = true) (hends : ∀ m, closing.ends m = true ↔ m = h.question) :
    Keeps s (s.dropHeld [h] decider (some closing)) := by
  rw [dropHeld_singleton]
  refine Quiet.keeps ⟨rfl, Nat.le_refl _, ⟨_, List.append_assoc _ _ _, ?_⟩, rfl, rfl, rfl,
    fun _ h => h⟩ (fun hs => ?_) (fun x hx => (mem_erase.mp hx).1)
    (fun q hq => ⟨q, (mem_erase.mp hq).1, rfl, rfl⟩)
  · intro e he
    rcases List.mem_cons.mp he with rfl | he
    · exact hquiet
    · rw [List.mem_singleton.mp he]
      rfl
  · have hclosed := hs.tracks.finishes hopen (opens_of_quiet hquiet) hends
    exact (hclosed.say (fun _ => rfl) (fun _ => rfl)).congr fun m => exists_erase.symm

/-- A released message goes out under the id it was kept with, and is not kept
any more. -/
theorem releaseHeld_sound {held : HeldMessage} (hmem : held ∈ s.heldMessages) (hs : s.Sound) :
    (s.releaseHeld w swept held decider).1.Sound := by
  have hsweep := s.expireQuestions_keeps w swept
  obtain ⟨hs₁, hg₁⟩ := hsweep hs.consistent
  have hp : (s.expireQuestions w swept).Proper
      ⟨held.envelope, none, .releases held decider, none⟩ :=
    { reserved := hg₁.reserved _ (hs.kept.reserved held hmem) id
      asks := by simp
      settles := by
        rintro m ⟨⟩
        exact ⟨rfl, (hg₁.card (hs.kept.cards held hmem)).remote⟩
      defaults := by simp }
  unfold releaseHeld
  rw [publish]
  rcases publishRouted_cases (s.expireQuestions w swept) w
    ⟨held.envelope, none, .releases held decider, none⟩ with ⟨heq, hrefused⟩ | ⟨e, he, heq⟩
  · split
    · next m hsent => exact absurd (congrArg Prod.snd hsent) (hrefused m)
    · rw [heq]
      exact hsweep.sound hs
  · have hs₂ := publishRouted_consistent (w := w) hp hs₁
    have hg₂ := hg₁.weaken.trans (publishRouted_grows (w := w) hp)
    rw [heq] at hs₂ hg₂ ⊢
    refine ⟨hs₂.withHeld _, (hg₂.erase held.question).kept hs.kept fun x hx heq => ?_⟩
    -- no other message was kept under the id
    obtain ⟨hx, hne⟩ := mem_erase.mp hx
    exact hne (congrArg _ (hs.kept.distinct x (hg₂.held x hx) held hmem heq))

/-- The person's word on a held message whose card is open, if it is to be
dropped. -/
theorem settleHeld_sound {question : MessageId} {decision : HeldDecision}
    (hopen : decision = .drop → (s.heldMessages.get? question).isSome → s.Open question)
    (hs : s.Sound) : (s.settleHeld w swept question decision decider).1.Sound := by
  unfold settleHeld
  split
  · exact hs
  next held hget =>
  obtain ⟨hmem, rfl⟩ := get?_eq_some.mp hget
  split
  · exact releaseHeld_sound hmem hs
  · refine (dropHeld_keeps (hopen rfl (by simp [hget])) rfl fun m => ?_).sound hs
    simp [ends]

/-! ## Ending -/

section

variable (s : Questions)

theorem cancelQuestion_keeps (agent : AgentId) (message : MessageId) :
    Keeps s (s.cancelQuestion agent message).1 := by
  unfold cancelQuestion
  split
  · exact .refl s
  next q hget =>
  obtain ⟨hq, rfl⟩ := get?_eq_some.mp hget
  split
  · exact .refl s
  · split
    · next held hheld =>
      have hcard := (get?_eq_some.mp hheld).2
      exact dropHeld_keeps ⟨q, hq, hcard.symm⟩ rfl fun m => by simp [ends, hcard]
    · refine Quiet.keeps ⟨rfl, Nat.le_refl _, ⟨_, rfl, by simp [quiet]⟩, rfl, rfl, rfl,
        fun _ h => h⟩ (fun hs => ?_) (fun _ h => h)
        (fun q' hq' => ⟨q', (mem_erase.mp hq').1, rfl, rfl⟩)
      have hcancelled := hs.tracks.finishes (e := .questionCancelled q.id agent)
        ⟨q, hq, rfl⟩ (fun _ => rfl) (by simp [ends])
      exact hcancelled.congr fun m => exists_erase.symm

/-- A step that only moves a request along. -/
theorem answering_keeps (answering : Keyed Answering.request) : Keeps s { s with answering } :=
  Quiet.keeps ⟨rfl, Nat.le_refl _, ⟨[], by simp⟩, rfl, rfl, rfl, fun _ h => h⟩
    (fun hs => hs.tracks) (fun _ h => h) (fun q hq => ⟨q, hq, rfl, rfl⟩)

theorem look_keeps (request : Nat) (message : MessageId) (now : Time) :
    Keeps s (s.look request message now).1 := by
  unfold look
  split
  · exact .refl s
  · exact s.answering_keeps _

theorem sort_keeps (request : Nat) : Keeps s (s.sort request) := by
  unfold sort
  split
  · exact s.answering_keeps _
  · exact .refl s

theorem settleRequest_keeps (request : Nat) : Keeps s (s.settleRequest request) :=
  s.answering_keeps _

end

theorem replyWith_keeps {words : Words} : Keeps s (s.replyWith w now swept q words).1 := by
  unfold replyWith
  split
  · exact .refl s
  · split
    · exact .refl s
    · split
      · exact .refl s
      · exact .refl s
      · exact s.publish_keeps w swept _ _ _ rfl (by simp) rfl

theorem reply_keeps (s : Questions) (w : Setting) (now swept : Time) (request : Nat)
    (words : Words) : Keeps s (s.reply w now swept request words).1 := by
  unfold reply
  split
  · exact ((s.settleRequest_keeps request).trans (expireQuestions_keeps _ w now)).trans
      replyWith_keeps
  · exact .refl s

theorem decideHeld_sound {request : Nat} {decider : AgentId} {decision : Option HeldDecision}
    (hopen : ∀ q, s.answering.get? request = some ⟨request, q, .deciding⟩ →
      w.people.isHuman decider = true → decision = some .drop →
      (s.heldMessages.get? q.id).isSome → s.Open q.id) (hs : s.Sound) :
    (s.decideHeld w swept request decider decision).1.Sound := by
  have hsettled := (s.settleRequest_keeps request).sound hs
  unfold decideHeld
  split
  · next r q hget =>
    split
    · exact hsettled
    next hhuman =>
    split
    · exact hsettled
    next d =>
    refine settleHeld_sound (fun hdrop hheld => ?_) hsettled
    have hr : r = request := (get?_eq_some.mp hget).2
    subst hr hdrop
    exact hopen q hget (by simpa using hhuman) rfl hheld
  · exact hs

/-! ## Waiting -/

section Waiting

variable {released : List HeldAnswer}

theorem routeHeld_sent {question : MessageId} {route : AnswerRoute} :
    (s.routeHeld released question route).Sent m ↔ s.Sent m := by
  rw [sent_append (s := s) rfl, or_iff_left]
  rintro ⟨d, hd, hsends⟩
  obtain ⟨h, -, rfl⟩ := List.mem_map.mp hd
  cases hsends

theorem routeHeld_opened {question : MessageId} {route : AnswerRoute} :
    (s.routeHeld released question route).Opened m ↔ s.Opened m := by
  rw [opened_append (s := s) rfl, or_iff_left]
  rintro ⟨d, hd, hopens⟩
  obtain ⟨h, -, rfl⟩ := List.mem_map.mp hd
  cases hopens

theorem routeHeld_fresh {question : MessageId} {route : AnswerRoute}
    (hsub : ∀ h ∈ released, h ∈ s.heldAnswers) (hf : s.Fresh) :
    (s.routeHeld released question route).Fresh where
  opened m hm := hf.opened m (routeHeld_opened.mp hm)
  sent m hm := hf.sent m (routeHeld_sent.mp hm)
  routed d hd m hr := by
    rw [routeHeld_sent]
    rcases List.mem_append.mp hd with hd | hd
    · exact hf.routed d hd m hr
    · obtain ⟨h, hh, rfl⟩ := List.mem_map.mp hd
      rw [of_decide_eq_true hr]
      exact hf.heldAnswers h (hsub h hh)
  heldAnswers h hh := routeHeld_sent.mpr (hf.heldAnswers h (mem_filter.mp hh).1)
  accepted acc hacc := routeHeld_sent.mpr (hf.accepted acc hacc)

/-- An answer that was held is routed now; any other stays as it is. -/
theorem routeHeld_routed {question : MessageId} {route : AnswerRoute}
    (hsub : ∀ h ∈ released, h ∈ s.heldAnswers) (hnodup : (released.map (·.answer)).Nodup)
    (h : s.events.countP (·.routes m) = if (s.heldAnswers.get? m).isSome then 0 else 1) :
    (s.routeHeld released question route).events.countP (·.routes m) =
      if ((s.routeHeld released question route).heldAnswers.get? m).isSome then 0 else 1 := by
  have hcount : (s.routeHeld released question route).events.countP (·.routes m) =
      s.events.countP (·.routes m) + (released.map (·.answer)).count m := by
    simp only [routeHeld, List.countP_append, List.countP_map, List.count, routes,
      Function.comp_def, beq_eq_decide, eq_comm]
  have hrow : ∀ x ∈ s.heldAnswers, x.answer = m → (m ∈ released.map (·.answer) ↔ x ∈ released) := by
    rintro x hx rfl
    constructor
    · intro hm
      obtain ⟨y, hy, heq⟩ := List.mem_map.mp hm
      rwa [eq_of_key_eq hx (hsub y hy) heq.symm]
    · exact fun hx => List.mem_map_of_mem hx
  rw [hcount, h, routeHeld, get?_filter]
  cases hget : s.heldAnswers.get? m with
  | none =>
    have hnot : m ∉ released.map (·.answer) := by
      intro hm
      obtain ⟨y, hy, heq⟩ := List.mem_map.mp hm
      exact get?_eq_none.mp hget y (hsub y hy) heq
    simp [List.count_eq_zero_of_not_mem hnot]
  | some x =>
    obtain ⟨hx, hid⟩ := get?_eq_some.mp hget
    by_cases hreleased : x ∈ released
    · have hone := List.count_eq_one_of_mem hnodup ((hrow x hx hid).mpr hreleased)
      simp [hone, hreleased]
    · have hnot := fun hm => hreleased ((hrow x hx hid).mp hm)
      simp [List.count_eq_zero_of_not_mem hnot, hreleased]

theorem routeHeld_keeps {question : MessageId} {route : AnswerRoute}
    (hsub : ∀ h ∈ released, h ∈ s.heldAnswers) (hnodup : (released.map (·.answer)).Nodup) :
    Keeps s (s.routeHeld released question route) := by
  intro hs
  have ha := hs.answers
  refine ⟨⟨hs.tracks.sayAll fun d hd m => ?_, ?_, routeHeld_fresh hsub hs.fresh⟩, ?_⟩
  · obtain ⟨h, -, rfl⟩ := List.mem_map.mp hd
    exact ⟨rfl, rfl⟩
  · refine ⟨fun m a hmem => ?_, fun acc hacc => List.mem_append_left _ (ha.closes acc hacc),
      ha.entitled, ha.queued,
      fun acc hacc => routeHeld_routed hsub hnodup (ha.routed acc hacc),
      fun h hh => ha.waiting h (mem_filter.mp hh).1⟩
    rcases List.mem_append.mp hmem with hmem | hmem
    · exact ha.answered m a hmem
    · obtain ⟨h, -, heq⟩ := List.mem_map.mp hmem
      cases heq
  · exact
      { reserved := fun m hm _ => ⟨hm.drawn, fun h => hm.unsent (routeHeld_sent.mp h),
          fun h => hm.unopened (routeHeld_opened.mp h)⟩
        opened := fun m hm => routeHeld_opened.mpr hm
        held := fun _ h => h
        questions := fun q hq => .inr ⟨q, hq, rfl, rfl⟩ }

theorem answerHandedOver_keeps (s : Questions) (question answer : MessageId) (resolves : Bool) :
    Keeps s (s.answerHandedOver question answer resolves) := by
  unfold answerHandedOver
  split
  · exact .refl s
  next held hget =>
  split
  · refine routeHeld_keeps (fun h hh => ?_) (by simp)
    rw [List.mem_singleton.mp hh]
    exact (get?_eq_some.mp hget).1
  · exact .refl s

/-- The wait is over, and nothing is held for it any more. -/
theorem waiterEnded_keeps (s : Questions) (question : MessageId) :
    Keeps s (s.waiterEnded question) := by
  intro hs
  obtain ⟨hs', hg⟩ := routeHeld_keeps (s := s)
    (fun h hh => (List.mem_filter.mp hh).1)
    (s.heldAnswers.nodup.sublist ((List.filter_sublist
      (p := fun h => decide (h.question = question))).map _)) hs
  have ha := hs'.answers
  have hf := hs'.fresh
  refine ⟨⟨hs'.tracks, { ha with waiting := ?_ }, { hf with }⟩, ?_⟩
  · intro h hh
    have hne : h.question ≠ question := by
      rintro rfl
      obtain ⟨hmem, hout⟩ := mem_filter.mp hh
      exact of_decide_eq_true hout (List.mem_filter.mpr ⟨hmem, by simp⟩)
    exact List.mem_filter.mpr ⟨ha.waiting h hh, decide_eq_true hne⟩
  · exact { hg with
      reserved := fun m hm _ =>
        ⟨hm.drawn, (hg.reserved m hm id).unsent, (hg.reserved m hm id).unopened⟩ }

end Waiting

/-! ## Runs -/

/-- A step drops no held message whose card is not open. -/
def DropsOpen (s : Questions) : Op → Prop
  | .decide w _ request decider decision =>
    ∀ q, s.answering.get? request = some ⟨request, q, .deciding⟩ →
      w.people.isHuman decider = true → decision = some .drop →
      (s.heldMessages.get? q.id).isSome → s.Open q.id
  | _ => True

theorem empty_sound {supply : Supply} : (empty supply).Sound where
  consistent :=
    { tracks := ⟨Vocabulary.legal_nil, fun m => by simp [Open, empty, Vocabulary.Open]⟩
      answers := by constructor <;> simp [empty]
      fresh := by constructor <;> simp [empty, Opened, Sent] }
  kept := by constructor <;> simp [empty]

theorem step_sound (h : s.DropsOpen op) (hs : s.Sound) : (s.step op).Sound := by
  cases op with
  | ask w now swept d => exact (s.ask_keeps w now swept d).sound hs
  | post w now swept d => exact (s.openQuestion_keeps w now swept d).sound hs
  | send w swept e => exact (s.send_keeps w swept e).sound hs
  | hold _ _ _ _ _ _ remote => exact holdMessage_sound remote hs
  | cancel agent message => exact (s.cancelQuestion_keeps agent message).sound hs
  | sweep w now => exact (s.expireQuestions_keeps w now).sound hs
  | look request message now => exact (s.look_keeps request message now).sound hs
  | sort request => exact (s.sort_keeps request).sound hs
  | reply w now swept request words => exact (s.reply_keeps w now swept request words).sound hs
  | decide => exact decideHeld_sound h hs
  | handOver question answer resolves =>
    exact (s.answerHandedOver_keeps question answer resolves).sound hs
  | endWait question => exact (s.waiterEnded_keeps question).sound hs

/-- A card closed twice is one end too many. -/
theorem not_lifecycle_of_not_dropsOpen (hs : s.Sound) (h : ¬ s.DropsOpen op) :
    ¬ (s.step op).Lifecycle := by
  cases op with
  | decide w swept request decider =>
    simp only [DropsOpen, not_forall] at h
    obtain ⟨q, hget, hhuman, rfl, hheld, hclosed⟩ := h
    obtain ⟨held, hheld⟩ := Option.isSome_iff_exists.mp hheld
    intro hlife
    have hstep : s.step (.decide w swept request decider (some .drop)) =
        (s.settleRequest request).dropHeld [held] decider.id
          (some (.questionClosed q.id none)) := by
      have hheld' : (s.settleRequest request).heldMessages.get? q.id = some held := hheld
      simp [step, decideHeld, hget, hhuman, settleHeld, hheld']
    rw [hstep, dropHeld_singleton] at hlife
    have hlegal := (Vocabulary.legal_append_singleton.mp hlife.tracks.legal).1
    have hopen := hlegal.open_of_ends (k := q.id) (by simp [ends])
    exact hclosed ((hs.consistent.tracks.live_iff q.id).mpr hopen)
  | _ => exact absurd trivial h

/-- The life of a question goes as it should throughout exactly those runs in
which every message that is dropped still has its card open. -/
theorem lifecycle_iff (supply : Supply) (ops : List Op) :
    Always step Lifecycle (empty supply) ops ↔ Each step DropsOpen (empty supply) ops :=
  always_iff_each_of_invariant empty_sound (fun _ hs => hs.consistent.lifecycle)
    (fun _ _ hs h => step_sound h hs) (fun _ _ hs h => not_lifecycle_of_not_dropsOpen hs h)

/-! The person replies to a card while an answer to it is under way. -/

def tally : Supply where
  id n := ⟨String.ofList (List.replicate n 'm')⟩
  injective m n h := by
    have hlength := congrArg (fun id : MessageId => id.id.toList.length) h
    simpa using hlength

def person : AgentId := ⟨"user"⟩

def desk : Setting where
  people := ⟨fun _ => none, fun a => decide (a = person)⟩
  routes := ⟨fun _ => 0, fun _ => []⟩
  room _ _ := true
  resolves _ _ payload := .ok payload
  defaultAnswer _ label := .ok label

/-- A connector's message is held; an `answer` finds its card; a reply to the
card goes to the sender; the `answer` drops the message. -/
def repliedThenDropped : List Op :=
  [.hold desk 0 0 ⟨tally.id 0, "remote", .agent ⟨"local"⟩, "message", "hello", none, 0⟩ person
      "Release or drop?" (by decide),
    .look 0 (tally.id 1) 1,
    .sort 0,
    .send desk 2 ⟨tally.id 2, "user", .agent ⟨"remote"⟩, "message", "who is this?",
      some (tally.id 1), 2⟩,
    .decide desk 3 0 person (some .drop)]

/-- The card is closed by the reply, and closed again as its message goes. -/
theorem repliedThenDropped_closesTwice :
    (run step (empty tally) repliedThenDropped).events.filter (·.ends (tally.id 1)) =
        [.questionClosed (tally.id 1) (some (tally.id 2)), .questionClosed (tally.id 1) none] ∧
      ¬ Always step Lifecycle (empty tally) repliedThenDropped := by
  have htwice : (run step (empty tally) repliedThenDropped).events.filter (·.ends (tally.id 1)) =
      [.questionClosed (tally.id 1) (some (tally.id 2)), .questionClosed (tally.id 1) none] := by
    decide +kernel
  refine ⟨htwice, fun h => ?_⟩
  have honce := h.last.once (tally.id 1)
  rw [List.countP_eq_length_filter, htwice] at honce
  simp at honce

end Questions

end AgentDocker.Daemon
