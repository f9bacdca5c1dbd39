import AgentDocker.Proofs.Registry

/-!
# Nothing waits for a retired id

A question that waits names who asked it and who it was put to; a handoff that
nobody accepted names who made it and whom for. An answer or an acceptance is
compared with these names as they are, so a name that was retired is one nobody
goes by any more: the record that stays can neither answer the question nor
take the handoff.

A fold rewrites the names it retires. A resumption does not, and a question or
handoff is written under names that were resolved before, so it can be late.
`addressed_iff` says that these are the only two ways a dead name comes about.
-/

namespace AgentDocker.Daemon

open AgentDocker.Core Lib Keyed

/-! ## Rewriting -/

/-- The names in a bundle a plan takes, replaced. -/
theorem HandoffBundle.foldlM_rewrite {kept : AgentId} {retired : List AgentId}
    {h h' : HandoffBundle} (hkept : kept ∉ retired)
    (heq : retired.foldlM (rewrite kept) h = some h') :
    h'.sender = (if h.sender ∈ retired then kept else h.sender) ∧
      h'.recipient = h.recipient.map (fun a => if a ∈ retired then kept else a) ∧
      h'.acceptedBy = h.acceptedBy := by
  induction retired generalizing h with
  | nil =>
    cases heq
    simp
  | cons old rest ih =>
    rw [List.mem_cons, not_or] at hkept
    rw [List.foldlM_cons, Option.bind_eq_bind, Option.bind_eq_some_iff] at heq
    obtain ⟨h₁, hone, hrest⟩ := heq
    obtain ⟨hs, hr, ha⟩ := ih hkept.2 hrest
    have hone' : h₁.sender = replace kept old h.sender ∧
        h₁.recipient = h.recipient.map (replace kept old) ∧ h₁.acceptedBy = h.acceptedBy := by
      unfold rewrite at hone
      dsimp only at hone
      split at hone <;> cases hone
      exact ⟨rfl, rfl, rfl⟩
    have hreplace : ∀ a, (if replace kept old a ∈ rest then kept else replace kept old a) =
        if a ∈ old :: rest then kept else a := by
      intro a
      unfold replace
      by_cases haold : a = old
      · simp [haold, hkept.2]
      · simp [haold]
    refine ⟨?_, ?_, ha.trans hone'.2.2⟩
    · rw [hs, hone'.1, hreplace]
    · rw [hr, hone'.2.1, Option.map_map]
      congr 1
      exact funext hreplace

namespace Identities

/-! ## Names that are gone by -/

/-- The names a question goes by are ids that stand for themselves. -/
def QuestionNamed (r : Registry) (q : Question) : Prop :=
  r.Canonical q.asker ∧ ∀ a, q.recipient = .agent a → r.Canonical a

/-- So are those of a handoff nobody accepted. -/
def HandoffNamed (r : Registry) (h : HandoffBundle) : Prop :=
  h.acceptedBy = none → r.Canonical h.sender ∧ ∀ a, h.recipient = some a → r.Canonical a

/-- Nothing waits for a retired id. -/
def Addressed (s : Identities) : Prop :=
  (∀ q ∈ s.questions, QuestionNamed s.registry q) ∧ ∀ h ∈ s.handoffs, HandoffNamed s.registry h

/-- Something that waits names the agent. -/
def Names (s : Identities) (a : AgentId) : Prop :=
  (∃ q ∈ s.questions, q.asker = a ∨ q.recipient = .agent a) ∨
    ∃ h ∈ s.handoffs, h.acceptedBy = none ∧ (h.sender = a ∨ h.recipient = some a)

/-- What is written late, and what is retired while it is waited for, is kept
out. -/
def Timely (s : Identities) : Op → Prop
  | .ask q lands => lands = true → QuestionNamed s.registry q
  | .handoff h lands =>
    lands = true → s.handoffs.get? h.id = none → HandoffNamed s.registry h
  | .resume prior caller lands =>
    prior ≠ caller → lands = true → (s.registry.retireInto caller prior).isOk = true →
      ¬ s.Names caller
  | _ => True

variable {kept : AgentId} {s : Identities} {retired : List AgentId} {r r' : Registry}

theorem canonical_renamed {a : AgentId} (ha : r.Canonical a) (hkept : r'.Canonical kept)
    (hothers : ∀ a, r.Canonical a → a ∉ retired → r'.Canonical a) :
    r'.Canonical (if a ∈ retired then kept else a) := by
  split
  · exact hkept
  · next hr => exact hothers a ha hr

/-- What a question names, renamed. -/
theorem QuestionNamed.renamed {q : Question} (h : QuestionNamed r q) (hkept : r'.Canonical kept)
    (hothers : ∀ a, r.Canonical a → a ∉ retired → r'.Canonical a) :
    QuestionNamed r' (renamed kept retired q) := by
  refine ⟨canonical_renamed h.1 hkept hothers, fun a ha => ?_⟩
  unfold Identities.renamed at ha
  dsimp only at ha
  split at ha
  · next b hb =>
    cases ha
    exact canonical_renamed (h.2 b hb) hkept hothers
  · next hother => exact absurd ha (hother a)

theorem HandoffNamed.rewritten {h : HandoffBundle} (hn : HandoffNamed r h) (hkr : kept ∉ retired)
    (hkept : r'.Canonical kept) (hothers : ∀ a, r.Canonical a → a ∉ retired → r'.Canonical a)
    (hplan : (retired.foldlM (HandoffBundle.rewrite kept) h).isSome = true) :
    HandoffNamed r' (h.rewritten kept retired) := by
  obtain ⟨_, hh'⟩ := Option.isSome_iff_exists.mp hplan
  obtain ⟨hs, hr, ha⟩ := HandoffBundle.foldlM_rewrite hkr hh'
  rw [HandoffBundle.rewritten, hh', Option.getD_some]
  intro hnone
  obtain ⟨hsender, hrecipient⟩ := hn (ha ▸ hnone)
  refine ⟨hs ▸ canonical_renamed hsender hkept hothers, fun a ha => ?_⟩
  rw [hr, Option.map_eq_some_iff] at ha
  obtain ⟨b, hb, rfl⟩ := ha
  exact canonical_renamed (hrecipient b hb) hkept hothers

/-- A fold leaves nothing named by what it retires. -/
theorem Addressed.commitFold (h : s.Addressed) (kept : AgentId) (retired : List AgentId)
    (lands : Bool) : (s.commitFold kept retired lands).Addressed := by
  unfold Identities.commitFold
  split
  · next hplan =>
    simp only [planFold, Bool.and_eq_true, decide_eq_true_eq, List.all_eq_true] at hplan
    obtain ⟨⟨⟨⟨⟨⟨⟨-, hkr⟩, -⟩, -⟩, -⟩, hhandoffs⟩, haliases⟩, -⟩ := hplan
    have hkeptNone : s.registry.aliases.get? kept = none :=
      get?_eq_none.mpr fun known hknown => (haliases known hknown).2
    have hkept := Registry.canonical_of_get?_none hkeptNone
    have hothers : ∀ a, s.registry.Canonical a → a ∉ retired →
        (s.registry.folded retired kept).Canonical a := fun a ha hr => ha.folded hr kept
    refine ⟨fun q' hq' => ?_, fun b' hb' => ?_⟩
    · dsimp only at hq'
      rw [mem_update] at hq'
      obtain ⟨q, hq, rfl⟩ := hq'
      exact (h.1 q hq).renamed (hothers kept hkept hkr) hothers
    · dsimp only at hb'
      rw [mem_update] at hb'
      obtain ⟨b, hb, rfl⟩ := hb'
      exact (h.2 b hb).rewritten hkr (hothers kept hkept hkr) hothers (hhandoffs b hb)
  · exact h

/-- A resumption that goes through leaves nothing named by the id it retires
exactly when nothing was. -/
theorem resumeInput_addressed_iff (h : s.Addressed) {prior caller : AgentId} (hne : prior ≠ caller)
    {registry : Registry} (hok : s.registry.retireInto caller prior = .ok registry) :
    Addressed { s with registry } ↔ ¬ s.Names caller := by
  have hcan : ∀ a, registry.Canonical a ↔ a ≠ caller ∧ s.registry.Canonical a := by
    intro a
    unfold Registry.Canonical
    rw [Registry.retireInto_canonicalId hok]
    by_cases ha : a = caller
    · simp [ha, hne]
    · simp [ha]
  constructor
  · rintro ⟨hq, hh⟩ (⟨q, hmem, hasker | hto⟩ | ⟨b, hmem, hopen, hsender | hto⟩)
    · exact ((hcan _).mp (hq q hmem).1).1 hasker
    · exact ((hcan _).mp ((hq q hmem).2 caller hto)).1 rfl
    · exact ((hcan _).mp (hh b hmem hopen).1).1 hsender
    · exact ((hcan _).mp ((hh b hmem hopen).2 caller hto)).1 rfl
  · intro hnone
    refine ⟨fun q hq => ⟨?_, fun a ha => ?_⟩, fun b hb hopen => ⟨?_, fun a ha => ?_⟩⟩
    · exact (hcan _).mpr ⟨fun heq => hnone (.inl ⟨q, hq, .inl heq⟩), (h.1 q hq).1⟩
    · exact (hcan _).mpr ⟨fun heq => hnone (.inl ⟨q, hq, .inr (heq ▸ ha)⟩), (h.1 q hq).2 a ha⟩
    · exact (hcan _).mpr
        ⟨fun heq => hnone (.inr ⟨b, hb, hopen, .inl heq⟩), (h.2 b hb hopen).1⟩
    · exact (hcan _).mpr
        ⟨fun heq => hnone (.inr ⟨b, hb, hopen, .inr (heq ▸ ha)⟩), (h.2 b hb hopen).2 a ha⟩

/-- One step leaves nothing waiting for a retired id exactly when it is timely. -/
theorem step_addressed_iff (h : s.Addressed) {op : Op} : (s.step op).Addressed ↔ s.Timely op := by
  cases op with
  | register => exact iff_of_true h trivial
  | remove agent =>
    refine iff_of_true ?_ trivial
    unfold Identities.step
    dsimp only
    split
    · exact ⟨fun q hq => ⟨(h.1 q hq).1.remove agent, fun a ha => ((h.1 q hq).2 a ha).remove agent⟩,
        fun b hb hopen => ⟨(h.2 b hb hopen).1.remove agent,
          fun a ha => ((h.2 b hb hopen).2 a ha).remove agent⟩⟩
    · exact h
  | ask q lands =>
    cases lands with
    | false => exact iff_of_true h (by simp [Timely])
    | true =>
      constructor
      · intro h' _
        exact h'.1 q (mem_insert.mpr (.inl rfl))
      · intro hq
        refine ⟨fun q' hq' => ?_, h.2⟩
        rcases mem_insert.mp hq' with rfl | ⟨hq', -⟩
        · exact hq rfl
        · exact h.1 q' hq'
  | close =>
    refine iff_of_true ?_ trivial
    unfold Identities.step
    dsimp only
    split
    · exact ⟨fun q hq => h.1 q (mem_erase.mp hq).1, h.2⟩
    · exact h
  | handoff b =>
    unfold Identities.step Timely
    dsimp only
    split
    · next hnew =>
      simp only [Bool.and_eq_true, Option.isNone_iff_eq_none] at hnew
      constructor
      · intro h' _ _
        exact h'.2 b (mem_insert.mpr (.inl rfl))
      · intro hb
        refine ⟨h.1, fun b' hb' => ?_⟩
        rcases mem_insert.mp hb' with rfl | ⟨hb', -⟩
        · exact hb hnew.1 hnew.2
        · exact h.2 b' hb'
    next hold =>
    simp only [Bool.and_eq_true, Option.isNone_iff_eq_none] at hold
    exact iff_of_true h fun hl hnone => absurd ⟨hl, hnone⟩ hold
  | accept =>
    refine iff_of_true ?_ trivial
    unfold Identities.step acceptHandoff
    dsimp only
    split
    · exact h
    · split
      · refine ⟨h.1, fun b hb => ?_⟩
        rcases mem_insert.mp hb with rfl | ⟨hb, -⟩
        · simp [HandoffNamed]
        · exact h.2 b hb
      · exact h
  | fold kept retired lands => exact iff_of_true (h.commitFold kept retired lands) trivial
  | resume prior caller lands =>
    unfold Identities.step resumeInput Timely
    dsimp only
    by_cases hgo : prior ≠ caller ∧ lands = true
    · rw [if_pos hgo]
      cases hok : s.registry.retireInto caller prior with
      | ok =>
        rw [resumeInput_addressed_iff h hgo.1 hok]
        exact ⟨fun hn _ _ _ => hn, fun hn => hn hgo.1 hgo.2 rfl⟩
      | error => exact iff_of_true h (by simp [Except.isOk, Except.toBool])
    · rw [if_neg hgo]
      exact iff_of_true h fun hne hl => absurd ⟨hne, hl⟩ hgo

theorem start_addressed (agents : List AgentId) : (start agents).Addressed :=
  ⟨fun _ hq => absurd hq not_mem_empty, fun _ hh => absurd hh not_mem_empty⟩

/-- Whoever a question is put to directly can answer it, and whoever an open
handoff is addressed to can accept it. -/
def Reachable (people : People) (s : Identities) : Prop :=
  (∀ q ∈ s.questions, ∀ a, q.recipient = .agent a → s.answers people q a = true) ∧
    ∀ h ∈ s.handoffs, h.acceptedBy = none → ∀ a, h.recipient = some a →
      refusal h (s.registry.canonicalId a) = none

theorem Addressed.reachable (h : s.Addressed) {people : People} : s.Reachable people := by
  refine ⟨fun q hq a ha => ?_, fun b hb hopen a ha => ?_⟩
  · have hasker : s.registry.canonicalId q.asker = q.asker := (h.1 q hq).1
    have hto : s.registry.canonicalId a = a := (h.1 q hq).2 a ha
    simp [answers, hasker, hto, Question.putTo, Question.addressedTo, ha]
  · have hto : s.registry.canonicalId a = a := (h.2 b hb hopen).2 a ha
    simp [refusal, ha, hopen, hto]

/-- Nothing waits for a retired id in any state of a run, and so everything that
waits can be answered or accepted, exactly when each question and handoff of the
run is written under names that still stand, and each resumption retires an id
nothing waits for. -/
theorem addressed_iff (agents : List AgentId) (ops : List Op) (people : People) :
    Always step (fun s => s.Addressed ∧ s.Reachable people) (start agents) ops ↔
      Each step Timely (start agents) ops := by
  have hstart := start_addressed agents
  refine always_iff_each (Q := fun _ => True) (G := fun _ _ => True) trivial
    ⟨hstart, hstart.reachable⟩ (fun _ _ _ _ => trivial) (fun s op _ _ h => ?_)
    (.of_forall fun _ _ => trivial)
  rw [← step_addressed_iff h.1]
  exact and_iff_left_of_imp fun h' => h'.reachable

/-- Nobody is a person or works in a project. -/
def strangers : People := ⟨fun _ => none, fun _ => false⟩

/-- A question to the new record of a session, for an hour. -/
def asked : Question :=
  ⟨⟨"m1"⟩, ⟨"asker"⟩, .agent ⟨"caller"⟩, 0, 3600, none, .keepWaiting, none⟩

/-- The new record is asked, and then retired into the prior one. -/
def retiredWhileAsked : List Op :=
  [.register ⟨"caller"⟩, .ask asked true, .resume ⟨"prior"⟩ ⟨"caller"⟩ true]

/-- The question goes on naming the retired id, and whichever name the record
that stays answers by, it is not taken. -/
theorem retiredWhileAsked_unaddressed :
    (¬ ∀ ops : List Op, Always step (fun s => s.Addressed ∧ s.Reachable strangers)
      (start [⟨"asker"⟩, ⟨"prior"⟩]) ops) ∧
    ∀ who ∈ [AgentId.mk "prior", ⟨"caller"⟩],
      (run step (start [⟨"asker"⟩, ⟨"prior"⟩]) retiredWhileAsked).answers strangers asked who =
        false := by
  refine ⟨fun h => ?_, by decide⟩
  have hlast := (h retiredWhileAsked).last.1
  exact absurd ((hlast.1 asked (by decide)).2 ⟨"caller"⟩ rfl) (by decide)

end Identities

end AgentDocker.Daemon
