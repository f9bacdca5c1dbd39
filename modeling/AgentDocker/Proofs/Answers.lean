import AgentDocker.Daemon.Questions
import AgentDocker.Lib.Lifecycles

/-!
# What a message does to the questions

A message can open a question, answer one and settle a held message's card, all
in one commit. This file says what is to hold of the questions after any number
of commits (`Lifecycle`), what else has to hold for that (`Fresh` and `Kept`,
both about ids), and that a message keeps it.

Most steps of the daemon open, send, accept and route nothing: they are `Quiet`,
and only what they end has to be looked at. `Grows` is what is left to say about
a step for the held messages: their ids are not spent, and their cards are not
readdressed.
-/

namespace AgentDocker.Daemon

open AgentDocker.Core Lib Keyed

namespace QuestionEvent

def opens : QuestionEvent → MessageId → Bool
  | .questionOpened question _, m => decide (m = question)
  | _, _ => false

def ends : QuestionEvent → MessageId → Bool
  | .questionClosed question _, m => decide (m = question)
  | .questionCancelled question _, m => decide (m = question)
  | _, _ => false

def sends : QuestionEvent → MessageId → Bool
  | .messageSent message _ _ _, m => decide (m = message)
  | _, _ => false

def routes : QuestionEvent → MessageId → Bool
  | .answerRouted _ answer _, m => decide (m = answer)
  | _, _ => false

/-- A question begins when it is opened, and ends when it is closed or
cancelled. -/
abbrev vocabulary : Vocabulary QuestionEvent MessageId := ⟨opens, ends⟩

/-- An event that opens, sends, routes and accepts nothing. -/
def quiet : QuestionEvent → Bool
  | .messageSent _ _ _ _ | .questionOpened _ _ | .answerRouted _ _ _ => false
  | .questionClosed _ answer => answer.isNone
  | _ => true

/-- One that ends nothing either. -/
def idle : QuestionEvent → Bool
  | .questionClosed _ _ | .questionCancelled _ _ => false
  | e => e.quiet

variable {e : QuestionEvent}

theorem opens_of_quiet (h : e.quiet = true) (m : MessageId) : e.opens m = false := by
  cases e <;> first | rfl | cases h

theorem sends_of_quiet (h : e.quiet = true) {m : MessageId} : e.sends m = false := by
  cases e <;> first | rfl | cases h

theorem routes_of_quiet (h : e.quiet = true) {m : MessageId} : e.routes m = false := by
  cases e <;> first | rfl | cases h

theorem ends_of_idle (h : e.idle = true) {m : MessageId} : e.ends m = false := by
  cases e <;> first | rfl | cases h

theorem quiet_of_idle (h : e.idle = true) : e.quiet = true := by
  cases e <;> first | rfl | cases h

end QuestionEvent

open QuestionEvent

/-- Whose answer it may be: the asker gets it, and it comes from somebody the
question was put to, or from the daemon as the default. -/
def Acceptance.Entitled (a : Acceptance) : Prop :=
  a.answer.destination = .agent a.question.asker ∧
    if a.byDefault = true then a.answer.sender = defaultAnswerer
    else a.question.putTo a.people ⟨a.answer.sender⟩ = true

namespace Questions

def Open (s : Questions) (m : MessageId) : Prop := ∃ q ∈ s.questions, q.id = m

/-- What becomes of the answers that closed a question. -/
structure Answers (s : Questions) : Prop where
  answered : ∀ m a, .questionClosed m (some a) ∈ s.events →
    ∃ acc ∈ s.accepted, acc.question.id = m ∧ acc.answer.id = a
  closes : ∀ acc ∈ s.accepted, .questionClosed acc.question.id (some acc.answer.id) ∈ s.events
  entitled : ∀ acc ∈ s.accepted, acc.Entitled
  queued : ∀ acc ∈ s.accepted, (acc.question.asker, acc.answer) ∈ s.queued
  /-- Routed once, or not yet, while it is held. -/
  routed : ∀ acc ∈ s.accepted, s.events.countP (·.routes acc.answer.id) =
    if (s.heldAnswers.get? acc.answer.id).isSome then 0 else 1
  /-- What is held is held for an `ask` that still waits. -/
  waiting : ∀ h ∈ s.heldAnswers, h.question ∈ s.questionWaiters

/-- Every question ends at most once and is open from its opening until then,
and every answer that ended one was its giver's to give and reaches the
asker. -/
structure Lifecycle (s : Questions) : Prop where
  once : ∀ m, s.events.countP (·.ends m) ≤ 1
  tracks : vocabulary.Tracks s.Open s.events
  answers : s.Answers

/-! ## Ids -/

def Drawn (s : Questions) (m : MessageId) : Prop := ∃ n < s.used, s.supply.id n = m

def Sent (s : Questions) (m : MessageId) : Prop := ∃ e ∈ s.events, e.sends m = true

def Opened (s : Questions) (m : MessageId) : Prop := ∃ e ∈ s.events, e.opens m = true

/-- Drawn, and neither sent nor opened. -/
structure Reserved (s : Questions) (m : MessageId) : Prop where
  drawn : s.Drawn m
  unsent : ¬ s.Sent m
  unopened : ¬ s.Opened m

/-- Nothing goes by an id that was not drawn. -/
structure Fresh (s : Questions) : Prop where
  opened : ∀ m, s.Opened m → s.Drawn m
  sent : ∀ m, s.Sent m → s.Drawn m
  routed : ∀ e ∈ s.events, ∀ m, e.routes m = true → s.Sent m
  heldAnswers : ∀ h ∈ s.heldAnswers, s.Sent h.answer
  accepted : ∀ acc ∈ s.accepted, s.Sent acc.answer.id

/-- The card of a held message was opened, and while it is open it is put to
somebody other than the sender of the message. -/
structure Card (s : Questions) (h : HeldMessage) : Prop where
  opened : s.Opened h.question
  remote : ∀ q ∈ s.questions, q.id = h.question →
    ∃ human : AgentId, q.recipient = .agent human ∧ h.envelope.sender ≠ human.id

/-- The held messages: none is out yet, and each has a card. -/
structure Kept (s : Questions) : Prop where
  reserved : ∀ h ∈ s.heldMessages, s.Reserved h.envelope.id
  distinct : ∀ h ∈ s.heldMessages, ∀ h' ∈ s.heldMessages, h.envelope.id = h'.envelope.id → h = h'
  cards : ∀ h ∈ s.heldMessages, s.Card h

/-- What every step keeps, whatever it does with the held messages. -/
structure Consistent (s : Questions) : Prop where
  tracks : vocabulary.Tracks s.Open s.events
  answers : s.Answers
  fresh : s.Fresh

theorem Consistent.lifecycle {s : Questions} (h : s.Consistent) : s.Lifecycle :=
  ⟨fun _ => h.tracks.legal.countP_ends_le_one, h.tracks, h.answers⟩

variable {s s' : Questions} {m : MessageId}

/-- The next id is nobody's. -/
theorem not_drawn (s : Questions) : ¬ s.Drawn s.drawn := by
  rintro ⟨_, _, heq⟩
  exact absurd (s.supply.injective _ _ heq) (by omega)

theorem Fresh.reserved_draw (h : s.Fresh) : s.draw.Reserved s.drawn where
  drawn := ⟨s.used, Nat.lt_succ_self _, rfl⟩
  unsent hsent := s.not_drawn (h.sent _ hsent)
  unopened hopened := s.not_drawn (h.opened _ hopened)

/-! ## What a step leaves alone -/

/-- A step that adds to the log, spends some of the reserved ids, and changes
no recipient of a question. -/
structure Grows (spent : MessageId → Prop) (s s' : Questions) : Prop where
  reserved : ∀ m, s.Reserved m → ¬ spent m → s'.Reserved m
  opened : ∀ m, s.Opened m → s'.Opened m
  held : ∀ h ∈ s'.heldMessages, h ∈ s.heldMessages
  questions : ∀ q ∈ s'.questions,
    ¬ s.Opened q.id ∨ ∃ q₀ ∈ s.questions, q₀.id = q.id ∧ q₀.recipient = q.recipient

namespace Grows

variable {spent : MessageId → Prop}

theorem refl (s : Questions) : Grows spent s s where
  reserved _ h _ := h
  opened _ h := h
  held _ h := h
  questions q hq := .inr ⟨q, hq, rfl, rfl⟩

theorem trans {s'' : Questions} (h : Grows spent s s') (h' : Grows spent s' s'') :
    Grows spent s s'' where
  reserved m hm hs := h'.reserved m (h.reserved m hm hs) hs
  opened m hm := h'.opened m (h.opened m hm)
  held x hx := h.held x (h'.held x hx)
  questions q hq := by
    rcases h'.questions q hq with hnew | ⟨q₁, hq₁, hid₁, hto₁⟩
    · exact .inl fun hopened => hnew (h.opened _ hopened)
    · rcases h.questions q₁ hq₁ with hnew | ⟨q₀, hq₀, hid₀, hto₀⟩
      · exact .inl (hid₁ ▸ hnew)
      · exact .inr ⟨q₀, hq₀, hid₀.trans hid₁, hto₀.trans hto₁⟩

theorem weaken (h : Grows (fun _ => False) s s') : Grows spent s s' :=
  { h with reserved := fun m hm _ => h.reserved m hm id }

/-- The next id was nobody's to spend. -/
theorem unspent {next : MessageId} (h : Grows (· = next) s s') (hnext : next = s.drawn) :
    Grows (fun _ => False) s s' :=
  { h with reserved := fun m hm _ => h.reserved m hm fun heq =>
      s.not_drawn (hnext ▸ heq ▸ hm.drawn) }

theorem card (h : Grows spent s s') {x : HeldMessage} (hx : s.Card x) : s'.Card x where
  opened := h.opened _ hx.opened
  remote q hq hid := by
    rcases h.questions q hq with hnew | ⟨q₀, hq₀, hid₀, hto⟩
    · exact absurd (hid ▸ hx.opened) hnew
    · rw [← hto]
      exact hx.remote q₀ hq₀ (hid₀.trans hid)

theorem kept (h : Grows spent s s') (hk : s.Kept)
    (hs : ∀ x ∈ s'.heldMessages, ¬ spent x.envelope.id) : s'.Kept where
  reserved x hx := h.reserved _ (hk.reserved x (h.held x hx)) (hs x hx)
  distinct x hx y hy := hk.distinct x (h.held x hx) y (h.held y hy)
  cards x hx := h.card (hk.cards x (h.held x hx))

end Grows

/-- A step that opens, sends, accepts and routes nothing. What it ends is said
elsewhere. -/
structure Quiet (s s' : Questions) : Prop where
  supply : s'.supply = s.supply
  used : s.used ≤ s'.used
  events : ∃ said, s'.events = s.events ++ said ∧ ∀ e ∈ said, e.quiet = true
  heldAnswers : s'.heldAnswers = s.heldAnswers
  accepted : s'.accepted = s.accepted
  queued : s'.queued = s.queued
  waiters : ∀ m ∈ s.questionWaiters, m ∈ s'.questionWaiters

theorem Drawn.mono (h : s.Drawn m) (hs : s'.supply = s.supply) (hu : s.used ≤ s'.used) :
    s'.Drawn m := by
  obtain ⟨n, hn, heq⟩ := h
  exact ⟨n, Nat.lt_of_lt_of_le hn hu, by rw [hs, heq]⟩

variable {said : List QuestionEvent}

theorem sent_append (h : s'.events = s.events ++ said) :
    s'.Sent m ↔ s.Sent m ∨ ∃ e ∈ said, e.sends m = true := by
  simp only [Sent, h, List.mem_append, or_and_right, exists_or]

theorem opened_append (h : s'.events = s.events ++ said) :
    s'.Opened m ↔ s.Opened m ∨ ∃ e ∈ said, e.opens m = true := by
  simp only [Opened, h, List.mem_append, or_and_right, exists_or]

namespace Quiet

variable (h : Quiet s s')
include h

theorem sent_iff : s'.Sent m ↔ s.Sent m := by
  obtain ⟨_, hevents, hquiet⟩ := h.events
  rw [sent_append hevents, or_iff_left]
  rintro ⟨e, he, hs⟩
  simp [sends_of_quiet (hquiet e he)] at hs

theorem opened_iff : s'.Opened m ↔ s.Opened m := by
  obtain ⟨_, hevents, hquiet⟩ := h.events
  rw [opened_append hevents, or_iff_left]
  rintro ⟨e, he, ho⟩
  simp [opens_of_quiet (hquiet e he)] at ho

theorem fresh (hf : s.Fresh) : s'.Fresh where
  opened m hm := (hf.opened m (h.opened_iff.mp hm)).mono h.supply h.used
  sent m hm := (hf.sent m (h.sent_iff.mp hm)).mono h.supply h.used
  routed e he m hr := by
    obtain ⟨_, hevents, hquiet⟩ := h.events
    rw [hevents, List.mem_append] at he
    rcases he with he | he
    · exact h.sent_iff.mpr (hf.routed e he m hr)
    · simp [routes_of_quiet (hquiet e he)] at hr
  heldAnswers x hx := h.sent_iff.mpr (hf.heldAnswers x (h.heldAnswers ▸ hx))
  accepted acc hacc := h.sent_iff.mpr (hf.accepted acc (h.accepted ▸ hacc))

theorem answers (ha : s.Answers) : s'.Answers := by
  obtain ⟨said, hevents, hquiet⟩ := h.events
  constructor
  · intro m a hmem
    rw [hevents, List.mem_append] at hmem
    rw [h.accepted]
    rcases hmem with hmem | hmem
    · exact ha.answered m a hmem
    · cases hquiet _ hmem
  · intro acc hacc
    rw [h.accepted] at hacc
    rw [hevents]
    exact List.mem_append_left _ (ha.closes acc hacc)
  · intro acc hacc
    exact ha.entitled acc (h.accepted ▸ hacc)
  · intro acc hacc
    rw [h.queued]
    exact ha.queued acc (h.accepted ▸ hacc)
  · intro acc hacc
    rw [h.accepted] at hacc
    have hnone : said.countP (·.routes acc.answer.id) = 0 :=
      List.countP_eq_zero.mpr fun e he => by simp [routes_of_quiet (hquiet e he)]
    rw [hevents, List.countP_append, hnone, h.heldAnswers]
    exact ha.routed acc hacc
  · intro x hx
    rw [h.heldAnswers] at hx
    exact h.waiters _ (ha.waiting x hx)

theorem consistent (hs : s.Consistent) (ht : vocabulary.Tracks s'.Open s'.events) : s'.Consistent :=
  ⟨ht, h.answers hs.answers, h.fresh hs.fresh⟩

theorem grows (hheld : ∀ x ∈ s'.heldMessages, x ∈ s.heldMessages)
    (hq : ∀ q ∈ s'.questions, ∃ q₀ ∈ s.questions, q₀.id = q.id ∧ q₀.recipient = q.recipient)
    (spent : MessageId → Prop) : Grows spent s s' where
  reserved _ hm _ :=
    ⟨hm.drawn.mono h.supply h.used, fun hs => hm.unsent (h.sent_iff.mp hs),
      fun ho => hm.unopened (h.opened_iff.mp ho)⟩
  opened _ hm := h.opened_iff.mpr hm
  held := hheld
  questions q hmem := .inr (hq q hmem)

end Quiet

/-- A step that keeps what every step keeps, and spends no id that was reserved
before it. -/
def Keeps (s s' : Questions) : Prop :=
  s.Consistent → s'.Consistent ∧ Grows (fun _ => False) s s'

namespace Keeps

theorem refl (s : Questions) : Keeps s s := fun hs => ⟨hs, .refl s⟩

theorem trans {s'' : Questions} (h : Keeps s s') (h' : Keeps s' s'') : Keeps s s'' := by
  intro hs
  obtain ⟨hs', hg⟩ := h hs
  obtain ⟨hs'', hg'⟩ := h' hs'
  exact ⟨hs'', hg.trans hg'⟩

end Keeps

/-- A quiet step whose questions are some of those there were. -/
theorem Quiet.keeps (h : Quiet s s') (ht : s.Consistent → vocabulary.Tracks s'.Open s'.events)
    (hheld : ∀ x ∈ s'.heldMessages, x ∈ s.heldMessages)
    (hq : ∀ q ∈ s'.questions, ∃ q₀ ∈ s.questions, q₀.id = q.id ∧ q₀.recipient = q.recipient) :
    Keeps s s' :=
  fun hs => ⟨h.consistent hs (ht hs), h.grows hheld hq _⟩

theorem draw_quiet (s : Questions) : Quiet s s.draw :=
  ⟨rfl, Nat.le_succ _, ⟨[], by simp [draw]⟩, rfl, rfl, rfl, fun _ h => h⟩

theorem Consistent.draw (h : s.Consistent) : s.draw.Consistent :=
  s.draw_quiet.consistent h h.tracks

theorem draw_grows (s : Questions) (spent : MessageId → Prop) : Grows spent s s.draw :=
  s.draw_quiet.grows (fun _ h => h) (fun q hq => ⟨q, hq, rfl, rfl⟩) spent

/-! ## The message path -/

section Publishing

variable {w : Setting} {p : Publication} {e : Envelope} {closed : Option Question}

theorem resolved_ok (h : resolved w p closed = .ok e) :
    e.id = p.envelope.id ∧ e.sender = p.envelope.sender ∧
      e.destination = p.envelope.destination := by
  unfold resolved at h
  split at h
  · cases h
    exact ⟨rfl, rfl, rfl⟩
  · split at h
    · cases h
    · cases h
      exact ⟨rfl, rfl, rfl⟩

variable {q : Question} {d : QuestionEvent}

theorem closed_mem (h : s.closed w p = some q) : q ∈ s.questions := by
  unfold closed at h
  split at h
  · exact (get?_eq_some.mp h).1
  · obtain ⟨h, -⟩ := Option.filter_eq_some_iff.mp h
    obtain ⟨_, -, h⟩ := Option.bind_eq_some_iff.mp h
    exact (get?_eq_some.mp h).1

/-- A reply closes the question it replies to, for its asker, from somebody it
was put to. -/
theorem closed_reply (hd : p.defaultFor = none) (h : s.closed w p = some q) :
    p.envelope.destination = .agent q.asker ∧ q.putTo w.people ⟨p.envelope.sender⟩ = true := by
  unfold closed at h
  rw [hd] at h
  obtain ⟨-, hfor⟩ := Option.filter_eq_some_iff.mp h
  rw [Bool.and_eq_true, decide_eq_true_eq] at hfor
  exact hfor

theorem settled_open (h : s.settled p = some m) : p.document.closes = some m ∧ s.Open m := by
  obtain ⟨hcloses, hopen⟩ := Option.filter_eq_some_iff.mp h
  obtain ⟨q, hq⟩ := Option.isSome_iff_exists.mp hopen
  obtain ⟨hmem, hid⟩ := get?_eq_some.mp hq
  exact ⟨hcloses, q, hmem, hid⟩

/-- What is asked of a message on its way out: its id is its own, a question it
opens goes by the same id, and a card it settles is not put to its sender. -/
structure Proper (s : Questions) (p : Publication) : Prop where
  reserved : s.Reserved p.envelope.id
  asks : ∀ q, p.question = some q → q.id = p.envelope.id ∧ p.envelope.replyTo = none ∧
    p.defaultFor = none ∧ p.document.closes = none
  settles : ∀ m, p.document.closes = some m → p.defaultFor = none ∧ ∀ q ∈ s.questions, q.id = m →
      ∃ human : AgentId, q.recipient = .agent human ∧ p.envelope.sender ≠ human.id
  defaults : ∀ q ∈ s.questions, p.defaultFor = some q.id →
    p.envelope.destination = .agent q.asker ∧ p.envelope.sender = defaultAnswerer

theorem Proper.closed_eq_none (hp : s.Proper p) (hq : p.question = some q) :
    s.closed w p = none := by
  obtain ⟨-, hreply, hdefault, -⟩ := hp.asks q hq
  simp [closed, hdefault, hreply]

theorem Proper.settled_eq_none (hp : s.Proper p) (hq : p.question = some q) :
    s.settled p = none := by
  simp [settled, (hp.asks q hq).2.2.2]

/-- A question put to one agent is put to nobody else. -/
theorem putTo_agent {human who : AgentId} (hq : q.recipient = .agent human) {people : People} :
    q.putTo people who = decide (human = who) := by
  simp [Question.putTo, Question.addressedTo, hq]

/-- A message does not answer the card it settles. -/
theorem Proper.closed_ne_settled (hp : s.Proper p) (hq : s.closed w p = some q)
    (hm : s.settled p = some m) : q.id ≠ m := by
  intro hid
  obtain ⟨hdefault, hcard⟩ := hp.settles m (settled_open hm).1
  obtain ⟨_, hto, hsender⟩ := hcard q (closed_mem hq) hid
  have hput := (closed_reply hdefault hq).2
  rw [putTo_agent hto, decide_eq_true_eq] at hput
  exact hsender (by rw [hput])

/-- An accepted answer is its giver's to give. -/
theorem Proper.entitled (hp : s.Proper p) (hq : s.closed w p = some q)
    (he : resolved w p (s.closed w p) = .ok e) :
    Acceptance.Entitled ⟨q, e, p.defaultFor.isSome, w.people⟩ := by
  obtain ⟨-, hsender, hdestination⟩ := resolved_ok he
  unfold Acceptance.Entitled
  rw [hsender, hdestination]
  cases hd : p.defaultFor with
  | none =>
    obtain ⟨hto, hfrom⟩ := closed_reply hd hq
    exact ⟨hto, by simpa using hfrom⟩
  | some m =>
    have hm : q.id = m := by
      unfold closed at hq
      rw [hd] at hq
      exact (get?_eq_some.mp hq).2
    obtain ⟨hto, hfrom⟩ := hp.defaults q (closed_mem hq) (hm ▸ hd)
    exact ⟨hto, by simpa using hfrom⟩

/-- What is open once a message is out. -/
theorem published_open : (s.published w p closed e).Open m ↔
      (s.Open m ∨ m ∈ p.question.toList.map (·.id)) ∧ m ∉ closed.toList.map (·.id) ∧
        m ∉ (s.settled p).toList := by
  rw [Open, published, exists_filter (p := fun m => decide (m ∉ _)), decide_eq_true_eq,
    List.mem_append, not_or]
  cases p.question with
  | none => simp [Open]
  | some =>
    rw [Option.toList_some, List.foldl_cons, List.foldl_nil, exists_insert]
    simp [Open, eq_comm]

/-- What is said before a message of its document and of a stale question. -/
theorem idle_lead : ∀ d ∈ p.document.event ++ staleNotice p closed, d.idle = true := by
  intro d hd
  rcases List.mem_append.mp hd with hd | hd
  · cases hdoc : p.document <;> simp [hdoc, DocumentTransition.event] at hd <;> rw [hd] <;> rfl
  · unfold staleNotice at hd
    split at hd
    · obtain ⟨_, -, rfl⟩ := List.mem_map.mp hd
      rfl
    · simp at hd

theorem tracks_lead (closed : Option Question) (h : vocabulary.Tracks s.Open s.events) :
    vocabulary.Tracks s.Open (s.events ++ (p.document.event ++ staleNotice p closed)) :=
  h.sayAll fun d hd m =>
    ⟨opens_of_quiet (quiet_of_idle (idle_lead d hd)) m, ends_of_idle (idle_lead d hd)⟩

/-- The commit of a question opens it. -/
theorem published_tracks_question (hp : s.Proper p) (hq : p.question = some q)
    (h : vocabulary.Tracks s.Open s.events) :
    vocabulary.Tracks (s.published w p none e).Open (s.published w p none e).events := by
  have hsettled := hp.settled_eq_none hq
  have hsent := (tracks_lead (p := p) none h).say
    (e := .messageSent e.id e.sender e.destination e.kind) (fun _ => rfl) (fun _ => rfl)
  have hnew : ∀ d ∈ s.events ++ (p.document.event ++ staleNotice p none) ++
      [.messageSent e.id e.sender e.destination e.kind], d.opens q.id = false := by
    intro d hd
    rcases List.mem_append.mp hd with hd | hd
    · rcases List.mem_append.mp hd with hd | hd
      · rw [← Bool.not_eq_true]
        exact fun ho => hp.reserved.unopened ((hp.asks q hq).1 ▸ ⟨d, hd, ho⟩)
      · exact opens_of_quiet (quiet_of_idle (idle_lead d hd)) _
    · rw [List.mem_singleton.mp hd]
      rfl
  have hopened := hsent.begins (e := .questionOpened q.id q.expiresAt) hnew
    (by simp [opens]) (by simp [ends])
  have hevents : (s.published w p none e).events =
      s.events ++ (p.document.event ++ staleNotice p none) ++
        [.messageSent e.id e.sender e.destination e.kind] ++
        [.questionOpened q.id q.expiresAt] := by
    simp [published, announced, hsettled, hq]
  rw [hevents]
  refine hopened.congr fun m => ?_
  rw [published_open, hsettled, hq]
  simp

/-- The commit of any other message ends the card it settles and the question
it answers. -/
theorem published_tracks_reply (hp : s.Proper p) (hq : p.question = none)
    (h : vocabulary.Tracks s.Open s.events) :
    vocabulary.Tracks (s.published w p (s.closed w p) e).Open
      (s.published w p (s.closed w p) e).events := by
  have hsettled := (tracks_lead (p := p) (s.closed w p) h).finishesAll
    (f := (.questionClosed · none)) (l := (s.settled p).toList)
    (by simp [opens]) (by simp [ends]) (by cases s.settled p <;> simp)
    (fun m hm => (settled_open (Option.mem_toList.mp hm)).2)
  have hsent := hsettled.say (e := .messageSent e.id e.sender e.destination e.kind)
    (fun _ => rfl) (fun _ => rfl)
  have hclosed := hsent.finishesAll
    (f := (.questionClosed · (some e.id))) (l := (s.closed w p).toList.map (·.id))
    (by simp [opens]) (by simp [ends]) (by cases s.closed w p <;> simp) (by
      intro m hm
      obtain ⟨q, hq, rfl⟩ := List.mem_map.mp hm
      have hq := Option.mem_toList.mp hq
      exact ⟨⟨q, closed_mem hq, rfl⟩, fun hm =>
        hp.closed_ne_settled hq (Option.mem_toList.mp hm) rfl⟩)
  have hevents : (s.published w p (s.closed w p) e).events =
      s.events ++ (p.document.event ++ staleNotice p (s.closed w p)) ++
        (s.settled p).toList.map (.questionClosed · none) ++
        [.messageSent e.id e.sender e.destination e.kind] ++
        ((s.closed w p).toList.map (·.id)).map (.questionClosed · (some e.id)) := by
    simp [published, announced, hq, Function.comp_def]
  rw [hevents]
  refine hclosed.congr fun m => ?_
  rw [published_open, hq]
  tauto

theorem published_tracks (hp : s.Proper p) (h : vocabulary.Tracks s.Open s.events) :
    vocabulary.Tracks (s.published w p (s.closed w p) e).Open
      (s.published w p (s.closed w p) e).events := by
  cases hq : p.question with
  | none => exact published_tracks_reply hp hq h
  | some =>
    rw [hp.closed_eq_none hq]
    exact published_tracks_question hp hq h

/-! What the commit announces, event by event. -/

theorem mem_announced : d ∈ s.announced p closed e ↔ d ∈ p.document.event ++ staleNotice p closed ∨
      (∃ m, s.settled p = some m ∧ .questionClosed m none = d) ∨
      d = .messageSent e.id e.sender e.destination e.kind ∨
      (∃ q, p.question = some q ∧ .questionOpened q.id q.expiresAt = d) ∨
      ∃ q, closed = some q ∧ .questionClosed q.id (some e.id) = d := by
  simp [announced, or_assoc]

theorem announced_opens (hd : d ∈ s.announced p closed e) (ho : d.opens m = true) :
    ∃ q, p.question = some q ∧ q.id = m := by
  rcases mem_announced.mp hd with h | ⟨_, -, rfl⟩ | rfl | ⟨q, hq, rfl⟩ | ⟨_, -, rfl⟩
  · simp [opens_of_quiet (quiet_of_idle (idle_lead d h))] at ho
  · cases ho
  · cases ho
  · exact ⟨q, hq, (of_decide_eq_true ho).symm⟩
  · cases ho

theorem announced_sends : (∃ d ∈ s.announced p closed e, d.sends m = true) ↔ m = e.id := by
  constructor
  · rintro ⟨d, hd, hs⟩
    rcases mem_announced.mp hd with h | ⟨_, -, rfl⟩ | rfl | ⟨_, -, rfl⟩ | ⟨_, -, rfl⟩
    · simp [sends_of_quiet (quiet_of_idle (idle_lead d h))] at hs
    · cases hs
    · exact of_decide_eq_true hs
    · cases hs
    · cases hs
  · rintro rfl
    exact ⟨_, mem_announced.mpr (.inr (.inr (.inl rfl))), by simp [sends]⟩

theorem announced_routes (hd : d ∈ s.announced p closed e) : d.routes m = false := by
  rcases mem_announced.mp hd with h | ⟨_, -, rfl⟩ | rfl | ⟨_, -, rfl⟩ | ⟨_, -, rfl⟩
  · exact routes_of_quiet (quiet_of_idle (idle_lead d h))
  all_goals rfl

theorem announced_answer {a : MessageId} :
    .questionClosed m (some a) ∈ s.announced p closed e ↔
      ∃ q, closed = some q ∧ q.id = m ∧ e.id = a := by
  rw [mem_announced]
  constructor
  · rintro (h | ⟨_, -, h⟩ | h | ⟨_, -, h⟩ | ⟨q, hq, h⟩)
    · cases idle_lead _ h
    · cases h
    · cases h
    · cases h
    · injection h with hid ha
      exact ⟨q, hq, hid, Option.some.inj ha⟩
  · rintro ⟨q, hq, rfl, rfl⟩
    exact .inr (.inr (.inr (.inr ⟨q, hq, rfl⟩)))

/-! Routing the answer is the last thing a message does. -/

/-- Routing an answer holds it or says its route, and does nothing else. -/
theorem routeAnswer_eq : s.routeAnswer closed e = { s with
      heldAnswers := (s.routeAnswer closed e).heldAnswers
      events := s.events ++ (closed.toList.filter fun q => decide (q.id ∉ s.questionWaiters)).map
        fun q => .answerRouted q.id e.id .queue } := by
  unfold routeAnswer
  split
  · simp
  · split <;> next hw => simp [hw, emit]

theorem mem_routeAnswer_heldAnswers {x : HeldAnswer}
    (hx : x ∈ (s.routeAnswer closed e).heldAnswers) :
    x ∈ s.heldAnswers ∨ ∃ q, closed = some q ∧ q.id ∈ s.questionWaiters ∧ x = ⟨e.id, q.id⟩ := by
  unfold routeAnswer at hx
  split at hx
  · exact .inl hx
  next q =>
  split at hx
  · next hw =>
    rcases mem_insert.mp hx with rfl | ⟨hx, -⟩
    · exact .inr ⟨q, rfl, hw, rfl⟩
    · exact .inl hx
  · exact .inl hx

theorem routeAnswer_get?_of_ne (hm : m ≠ e.id) :
    (s.routeAnswer closed e).heldAnswers.get? m = s.heldAnswers.get? m := by
  unfold routeAnswer
  split
  · rfl
  · split
    · rw [get?_insert, if_neg (Ne.symm hm)]
    · rfl

/-- An answer nobody held yet is held exactly if somebody waits for it, and
its route is said exactly if nobody does. -/
theorem routeAnswer_new (hget : s.heldAnswers.get? e.id = none)
    (hcount : s.events.countP (·.routes e.id) = 0) :
    (s.routeAnswer (some q) e).events.countP (·.routes e.id) =
      if ((s.routeAnswer (some q) e).heldAnswers.get? e.id).isSome then 0 else 1 := by
  simp only [routeAnswer]
  split
  · simp [get?_insert, hcount]
  · have hsaid : [answerRouted q.id e.id .queue].countP (·.routes e.id) = 1 := by simp [routes]
    simp only [emit, List.countP_append, hcount, hsaid, hget]
    rfl

theorem deliver_events : (s.deliver w p e).events = s.events ++ (s.announced p (s.closed w p) e ++
      ((s.closed w p).toList.filter fun q => decide (q.id ∉ s.questionWaiters)).map
        fun q => .answerRouted q.id e.id .queue) := by
  rw [deliver, routeAnswer_eq]
  simp [published]

theorem mem_deliver_events :
    d ∈ (s.deliver w p e).events ↔ d ∈ s.events ∨ d ∈ s.announced p (s.closed w p) e ∨
      ∃ q, s.closed w p = some q ∧ q.id ∉ s.questionWaiters ∧
        .answerRouted q.id e.id .queue = d := by
  rw [deliver_events, List.mem_append, List.mem_append]
  simp [and_assoc]

theorem deliver_sent : (s.deliver w p e).Sent m ↔ s.Sent m ∨ m = e.id := by
  rw [← announced_sends, Sent, Sent]
  constructor
  · rintro ⟨d, hd, hs⟩
    rcases mem_deliver_events.mp hd with h | h | ⟨_, -, -, rfl⟩
    · exact .inl ⟨d, h, hs⟩
    · exact .inr ⟨d, h, hs⟩
    · cases hs
  · rintro (⟨d, hd, hs⟩ | ⟨d, hd, hs⟩)
    · exact ⟨d, mem_deliver_events.mpr (.inl hd), hs⟩
    · exact ⟨d, mem_deliver_events.mpr (.inr (.inl hd)), hs⟩

theorem opened_of_deliver (h : (s.deliver w p e).Opened m) :
    s.Opened m ∨ ∃ q, p.question = some q ∧ q.id = m := by
  obtain ⟨d, hd, ho⟩ := h
  rcases mem_deliver_events.mp hd with h | h | ⟨_, -, -, rfl⟩
  · exact .inl ⟨d, h, ho⟩
  · exact .inr (announced_opens h ho)
  · cases ho

theorem deliver_accepted : (s.deliver w p e).accepted = s.accepted ++
      (s.closed w p).toList.map fun q => ⟨q, e, p.defaultFor.isSome, w.people⟩ := by
  rw [deliver, routeAnswer_eq]
  rfl

theorem deliver_drawn : (s.deliver w p e).Drawn m ↔ s.Drawn m := by
  rw [deliver, routeAnswer_eq]
  rfl

theorem deliver_tracks (hp : s.Proper p) (h : vocabulary.Tracks s.Open s.events) :
    vocabulary.Tracks (s.deliver w p e).Open (s.deliver w p e).events := by
  rw [deliver, routeAnswer_eq]
  refine (published_tracks hp h).sayAll ?_
  intro d hd m
  obtain ⟨_, -, rfl⟩ := List.mem_map.mp hd
  exact ⟨rfl, rfl⟩

theorem deliver_fresh (hp : s.Proper p) (he : e.id = p.envelope.id) (h : s.Fresh) :
    (s.deliver w p e).Fresh where
  opened m hm := by
    rw [deliver_drawn]
    rcases opened_of_deliver hm with hm | ⟨q, hq, rfl⟩
    · exact h.opened m hm
    · rw [(hp.asks q hq).1]
      exact hp.reserved.drawn
  sent m hm := by
    rw [deliver_drawn]
    rcases deliver_sent.mp hm with hm | rfl
    · exact h.sent m hm
    · rw [he]
      exact hp.reserved.drawn
  routed d hd m hr := by
    rw [deliver_sent]
    rcases mem_deliver_events.mp hd with hd | hd | ⟨_, -, -, rfl⟩
    · exact .inl (h.routed d hd m hr)
    · simp [announced_routes hd] at hr
    · exact .inr (of_decide_eq_true hr)
  heldAnswers x hx := by
    rw [deliver_sent]
    rcases mem_routeAnswer_heldAnswers hx with hx | ⟨_, -, -, rfl⟩
    · exact .inl (h.heldAnswers x hx)
    · exact .inr rfl
  accepted acc hacc := by
    rw [deliver_sent]
    rw [deliver_accepted, List.mem_append] at hacc
    rcases hacc with hacc | hacc
    · exact .inl (h.accepted acc hacc)
    · obtain ⟨_, -, rfl⟩ := List.mem_map.mp hacc
      exact .inr rfl

/-- The events of a message that is out route no answer but its own. -/
theorem deliver_countP_routes (hm : m ≠ e.id) :
    (s.deliver w p e).events.countP (·.routes m) = s.events.countP (·.routes m) := by
  rw [deliver_events, List.countP_append, Nat.add_eq_left, List.countP_eq_zero]
  intro d hd
  rw [Bool.not_eq_true]
  rcases List.mem_append.mp hd with hd | hd
  · exact announced_routes hd
  · obtain ⟨_, -, rfl⟩ := List.mem_map.mp hd
    exact decide_eq_false hm

theorem deliver_answers (hp : s.Proper p) (he : resolved w p (s.closed w p) = .ok e)
    (hf : s.Fresh) (h : s.Answers) : (s.deliver w p e).Answers := by
  obtain ⟨hid, -, -⟩ := resolved_ok he
  have hunsent : ¬ s.Sent e.id := hid ▸ hp.reserved.unsent
  constructor
  · intro m a hmem
    rw [deliver_accepted]
    rcases mem_deliver_events.mp hmem with hmem | hmem | ⟨q, -, -, heq⟩
    · obtain ⟨acc, hacc, heq⟩ := h.answered m a hmem
      exact ⟨acc, List.mem_append_left _ hacc, heq⟩
    · obtain ⟨q, hq, rfl, rfl⟩ := announced_answer.mp hmem
      exact ⟨⟨q, e, p.defaultFor.isSome, w.people⟩, by simp [hq], rfl, rfl⟩
    · cases heq
  · intro acc hacc
    rw [deliver_accepted, List.mem_append] at hacc
    rw [mem_deliver_events]
    rcases hacc with hacc | hacc
    · exact .inl (h.closes acc hacc)
    · obtain ⟨q, hq, rfl⟩ := List.mem_map.mp hacc
      exact .inr (.inl (announced_answer.mpr ⟨q, Option.mem_toList.mp hq, rfl, rfl⟩))
  · intro acc hacc
    rw [deliver_accepted, List.mem_append] at hacc
    rcases hacc with hacc | hacc
    · exact h.entitled acc hacc
    · obtain ⟨_, hq, rfl⟩ := List.mem_map.mp hacc
      exact hp.entitled (Option.mem_toList.mp hq) he
  · intro acc hacc
    rw [deliver_accepted, List.mem_append] at hacc
    have hqueued : (s.deliver w p e).queued = s.queued ++ (w.routes.recipients e).map (·, e) := by
      rw [deliver, routeAnswer_eq]
      rfl
    rw [hqueued, List.mem_append]
    rcases hacc with hacc | hacc
    · exact .inl (h.queued acc hacc)
    · obtain ⟨q, hq, rfl⟩ := List.mem_map.mp hacc
      have hto : e.destination = .agent q.asker := (hp.entitled (Option.mem_toList.mp hq) he).1
      exact .inr (by simp [Routes.recipients, hto])
  · intro acc hacc
    rw [deliver_accepted, List.mem_append] at hacc
    rcases hacc with hacc | hacc
    · have hne : acc.answer.id ≠ e.id := fun heq => hunsent (heq ▸ hf.accepted acc hacc)
      rw [deliver_countP_routes hne, deliver, routeAnswer_get?_of_ne hne]
      exact h.routed acc hacc
    · obtain ⟨q, hq, rfl⟩ := List.mem_map.mp hacc
      -- nothing has routed the message, since it was never sent
      have hcount : (s.published w p (s.closed w p) e).events.countP (·.routes e.id) = 0 := by
        rw [List.countP_eq_zero]
        intro d hd
        rw [Bool.not_eq_true]
        rcases List.mem_append.mp hd with hd | hd
        · rw [← Bool.not_eq_true]
          exact fun hr => hunsent (hf.routed d hd _ hr)
        · exact announced_routes hd
      have hget : (s.published w p (s.closed w p) e).heldAnswers.get? e.id = none :=
        get?_eq_none.mpr fun x hx heq => hunsent (heq ▸ hf.heldAnswers x hx)
      have hnew := routeAnswer_new (q := q) hget hcount
      rwa [← Option.mem_toList.mp hq] at hnew
  · intro x hx
    have hwaiters : (s.deliver w p e).questionWaiters = s.questionWaiters := by
      rw [deliver, routeAnswer_eq]
      rfl
    rw [hwaiters]
    rcases mem_routeAnswer_heldAnswers hx with hx | ⟨_, -, hw, rfl⟩
    · exact h.waiting x hx
    · exact hw

theorem mem_deliver_questions (hq : q ∈ (s.deliver w p e).questions) :
    p.question = some q ∨ q ∈ s.questions := by
  rw [deliver, routeAnswer_eq] at hq
  have hq := (mem_filter.mp hq).1
  cases hp : p.question with
  | none =>
    rw [hp] at hq
    exact .inr hq
  | some =>
    rw [hp] at hq
    rcases mem_insert.mp hq with rfl | ⟨hq, -⟩
    · exact .inl rfl
    · exact .inr hq

theorem deliver_heldMessages : (s.deliver w p e).heldMessages = s.heldMessages := by
  rw [deliver, routeAnswer_eq]
  rfl

theorem deliver_grows (hp : s.Proper p) (he : e.id = p.envelope.id) :
    Grows (· = p.envelope.id) s (s.deliver w p e) where
  reserved m hm hne := by
    refine ⟨deliver_drawn.mpr hm.drawn, fun hs => ?_, fun ho => ?_⟩
    · rcases deliver_sent.mp hs with hs | rfl
      · exact hm.unsent hs
      · exact hne he
    · rcases opened_of_deliver ho with ho | ⟨q, hq, rfl⟩
      · exact hm.unopened ho
      · exact hne (hp.asks q hq).1
  opened m := by
    rintro ⟨d, hd, ho⟩
    exact ⟨d, mem_deliver_events.mpr (.inl hd), ho⟩
  held x hx := by rwa [deliver_heldMessages] at hx
  questions q hq := by
    rcases mem_deliver_questions hq with hq | hq
    · rw [(hp.asks q hq).1]
      exact .inl hp.reserved.unopened
    · exact .inr ⟨q, hq, rfl, rfl⟩

/-- A message is refused, with nothing changed, or goes out. -/
theorem publishRouted_cases (s : Questions) (w : Setting) (p : Publication) :
    ((s.publishRouted w p).1 = s ∧ ∀ m, (s.publishRouted w p).2 ≠ .sent m) ∨
      ∃ e, resolved w p (s.closed w p) = .ok e ∧
        s.publishRouted w p = (s.deliver w p e, .sent e.id) := by
  unfold publishRouted
  split
  · exact .inl ⟨rfl, by simp⟩
  · split
    · exact .inl ⟨rfl, by simp⟩
    next e he =>
    split
    · exact .inl ⟨rfl, by simp⟩
    · exact .inr ⟨e, he, rfl⟩

theorem publishRouted_consistent (hp : s.Proper p) (hs : s.Consistent) :
    (s.publishRouted w p).1.Consistent := by
  rcases s.publishRouted_cases w p with ⟨heq, -⟩ | ⟨_, he, heq⟩
  · rwa [heq]
  · rw [heq]
    exact ⟨deliver_tracks hp hs.tracks, deliver_answers hp he hs.fresh hs.answers,
      deliver_fresh hp (resolved_ok he).1 hs.fresh⟩

theorem publishRouted_grows (hp : s.Proper p) :
    Grows (· = p.envelope.id) s (s.publishRouted w p).1 := by
  rcases s.publishRouted_cases w p with ⟨heq, -⟩ | ⟨_, he, heq⟩
  · rw [heq]
    exact .refl s
  · rw [heq]
    exact deliver_grows hp (resolved_ok he).1

end Publishing

end Questions

end AgentDocker.Daemon
