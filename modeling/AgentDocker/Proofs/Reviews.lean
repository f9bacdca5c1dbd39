import AgentDocker.Daemon.Reviews
import AgentDocker.Proofs.Registry
import AgentDocker.Proofs.Retention

/-!
# A reviewer's later word

A gate asks each reviewer's latest word, and tells reviewers apart by the id a verdict
is kept under. Where every word on file is under the id its reviewer goes by now, one
reviewer is one id, and a later word takes the place of the earlier ones it counts for.

A reviewer who comes to go by another id leaves the earlier words behind: nobody speaks
under the old id again, and what was asked for under it stands.
-/

namespace AgentDocker.Daemon.Reviews

open AgentDocker.Core Lib AgentDocker.Proofs

variable {s : Reviews}

/-! ## What is claimed of a state -/

/-- Who asked for changes and passes the same commit later, and has asked for none
since, stands in no gate's way. -/
def Replaced (s : Reviews) : Prop :=
  ∀ before v between w after, s.docket.recorded = before ++ v :: (between ++ w :: after) →
    v.verdict = .changes → w.verdict = .pass → v.branch = w.branch → v.head = w.head →
    s.SameReviewer v.byAgent w.byAgent →
    (∀ u ∈ after, u.verdict = .changes → u.branch = w.branch →
      ¬ s.SameReviewer u.byAgent w.byAgent) →
    ∀ role, ∀ u ∈ words s.docket.kept w.branch role, s.SameReviewer u.byAgent w.byAgent →
      u.verdict ≠ .changes

/-! ## Ids -/

/-- The ids of records, of the person and of retired records are told apart. -/
structure Apart (s : Reviews) : Prop where
  retired : ∀ known ∈ s.registry.aliases, known.retired ∉ s.registry.agents
  kept : ∀ known ∈ s.registry.aliases, known.canonical ∈ s.registry.agents
  person : ∀ a, s.isPerson a = true → a ∉ s.registry.agents ∧ s.registry.aliases.get? a = none

theorem Apart.flat (h : Apart s) : s.registry.Flat := ⟨h.kept, h.retired⟩

variable {a caller prior record reviewer : AgentId} {human lands : Bool}
  {given said w : CodeVerdict}

theorem Apart.canonicalId (h : Apart s) (ha : a ∈ s.registry.agents) :
    s.registry.canonicalId a = a :=
  Registry.canonical_of_get?_none (h.flat.get?_of_mem ha)

/-- The ids reviewers go by now. -/
def Current (s : Reviews) (a : AgentId) : Prop := a ∈ s.registry.agents ∨ a = s.personId

theorem isPerson_personId (s : Reviews) : s.isPerson s.personId = true := by
  rw [isPerson, personId]
  cases s.person <;> simp

/-- Who goes by one id now is one reviewer. -/
theorem Apart.eq_of_same (h : Apart s) {b : AgentId} (ha : s.Current a) (hb : s.Current b)
    (hsame : s.SameReviewer a b) : a = b := by
  have hcanonical : ∀ c, s.Current c → s.registry.canonicalId c = c := by
    rintro _ (hc | rfl)
    · exact h.canonicalId hc
    · exact Registry.canonical_of_get?_none (h.person _ s.isPerson_personId).2
  rcases hsame with ⟨hpa, hpb⟩ | heq
  · rcases ha with ha | rfl
    · exact absurd ha (h.person a hpa).1
    · rcases hb with hb | rfl
      · exact absurd hb (h.person b hpb).1
      · rfl
  · rwa [hcanonical a ha, hcanonical b hb] at heq

/-! ## What is kept along a run -/

structure Settled (s : Reviews) : Prop where
  apart : Apart s
  retained : Retained verdictsPerProject s.isPerson s.docket
  numbered : Numbered s.docket
  /-- Every verdict counts for somebody. -/
  voiced : ∀ v ∈ s.docket.recorded, v.human = true ∨ v.roles ≠ []
  /-- Every id on file is known. -/
  known : ∀ v ∈ s.docket.recorded,
    v.byAgent ∈ s.registry.agents ∨ (s.registry.aliases.get? v.byAgent).isSome ∨
      s.isPerson v.byAgent = true
  /-- Every word kept is under an id its reviewer goes by now. -/
  current : ∀ v ∈ s.docket.kept, v.verdict ≠ .none → s.Current v.byAgent
  /-- A pass counts wherever what its reviewer asked for before counted. -/
  covers : s.docket.recorded.Pairwise fun u w => u ∈ s.docket.kept → u.byAgent = w.byAgent →
    u.branch = w.branch → u.verdict = .changes → w.verdict = .pass →
    ∀ role, u.countsFor role = true → w.countsFor role = true

/-- A word keeps its reviewer's id on file. -/
theorem Settled.current_of_mem (h : Settled s) (hw : w ∈ s.docket.recorded)
    (hword : w.verdict ≠ .none) : s.Current w.byAgent := by
  obtain ⟨role, hcounts⟩ : ∃ role, w.countsFor role = true := by
    rcases h.voiced w hw with hhuman | hroles
    · exact ⟨"", by simp [CodeVerdict.countsFor, hhuman]⟩
    · obtain ⟨role, _, hroles⟩ := List.exists_cons_of_ne_nil hroles
      exact ⟨role, by simp [CodeVerdict.countsFor, hroles]⟩
  have hspeaks : w ∈ counting s.docket.recorded role :=
    mem_counting.mpr ⟨hw, by simp [CodeVerdict.speaksFor, hword, hcounts]⟩
  obtain ⟨u, hu, hplace, -⟩ := exists_isLatest CodeVerdict.place CodeVerdict.order hspeaks
  have hword' : u.verdict ≠ .none := by
    have := (mem_counting.mp hu.mem).2
    simp only [CodeVerdict.speaksFor, Bool.and_eq_true, decide_eq_true_eq] at this
    exact this.1
  have hby : u.byAgent = w.byAgent := congrArg Prod.snd hplace
  rw [← hby]
  exact h.current u (h.retained.stands role u hu) hword'

theorem seq_le_of_order_le {v : CodeVerdict} (h : v.order ≤ w.order) : v.seq ≤ w.seq := by
  rcases Prod.Lex.toLex_le_toLex.mp h with hlt | ⟨heq, -⟩
  · exact Nat.le_of_lt hlt
  · exact Nat.le_of_eq heq

theorem Settled.replaced (h : Settled s) : Replaced s := by
  intro before v between w after hrecorded _ hw _ _ _ hafter role u hu hsame hchanges
  obtain ⟨hbranch, hstands⟩ := (mem_words (ranked_of_nodup h.retained.keptNodup)).mp hu
  have hkept : u ∈ s.docket.kept := (mem_counting.mp hstands.mem).1
  have hmem : u ∈ s.docket.recorded := h.retained.subset hkept
  have hwmem : w ∈ s.docket.recorded := by simp [hrecorded]
  have hby : u.byAgent = w.byAgent := h.apart.eq_of_same
    (h.current u hkept (by simp [hchanges])) (h.current_of_mem hwmem (by simp [hw])) hsame
  -- what was asked for was asked for before the pass
  have hsplit : s.docket.recorded = (before ++ v :: between) ++ w :: after := by
    rw [hrecorded]
    simp
  have hbefore : u ∈ before ++ v :: between := by
    rw [hsplit, List.mem_append, List.mem_cons] at hmem
    rcases hmem with hmem | rfl | hmem
    · exact hmem
    · rw [hw] at hchanges
      cases hchanges
    · exact absurd hsame (hafter u hmem hchanges hbranch)
  have hcovers := h.covers
  have hincreasing := h.numbered.increasing
  rw [hsplit, List.pairwise_append] at hcovers hincreasing
  have hcounts := hcovers.2.2 u hbefore w List.mem_cons_self hkept hby hbranch hchanges hw role
  have hlater := hincreasing.2.2 u hbefore w List.mem_cons_self
  -- so the pass counts for the role, and is the later one
  have hstands' := (h.retained.stands_iff role u).mp hstands
  have hspeaks := (mem_counting.mp hstands.mem).2
  simp only [CodeVerdict.speaksFor, Bool.and_eq_true] at hspeaks
  have hle := hstands'.le w
    (mem_counting.mpr ⟨hwmem, by simp [CodeVerdict.speaksFor, hw, hcounts hspeaks.2]⟩)
    (Prod.ext hbranch.symm hby.symm)
  have := seq_le_of_order_le hle
  omega

/-! ## Steps -/

/-- Ids are made up when they are needed: nobody has one yet. -/
def Unused (s : Reviews) (id : AgentId) : Prop :=
  id ∉ s.registry.agents ∧ s.registry.aliases.get? id = none ∧ s.isPerson id = false

def Generated (s : Reviews) : Op → Prop
  | .register agent => s.Unused agent
  | .me record => s.Unused record
  | .verdict _ _ said _ => said.id ∉ s.docket.recorded.map (·.id)
  | .resume _ _ _ => True

/-- The reviewer of a verdict goes by the id it is kept under, an agent passes in every
role it asked for changes in, and nobody with a word on file comes to go by another id. -/
def Steady (s : Reviews) : Op → Prop
  | .register _ => True
  | .me _ => s.person = none → ∀ v ∈ s.docket.kept, v.verdict ≠ .none → v.byAgent ≠ user
  | .verdict reviewer human said _ =>
    (human = true → reviewer = s.personId) ∧
      (human = false → s.registry.canonicalId reviewer = reviewer ∧
        (said.verdict = .pass → ∀ u ∈ s.docket.kept, u.byAgent = reviewer →
          u.branch = said.branch → u.verdict = .changes → u.roles ⊆ said.roles))
  | .resume _ caller _ => ∀ v ∈ s.docket.kept, v.verdict ≠ .none → v.byAgent ≠ caller

theorem Settled.register (h : Settled s) {agent : AgentId} (hnew : s.Unused agent) :
    Settled (s.step (.register agent)) := by
  have hperson : ∀ a, (s.step (.register agent)).isPerson a = s.isPerson a := fun _ => rfl
  refine { h with apart := ⟨?_, ?_, ?_⟩, known := ?_, current := ?_ }
  · intro known hknown hmem
    rcases List.mem_append.mp hmem with hmem | hmem
    · exact h.apart.retired known hknown hmem
    · exact Keyed.get?_eq_none.mp hnew.2.1 known hknown (List.mem_singleton.mp hmem)
  · intro known hknown
    exact List.mem_append_left _ (h.apart.kept known hknown)
  · intro a ha
    rw [hperson] at ha
    refine ⟨fun hmem => ?_, (h.apart.person a ha).2⟩
    rcases List.mem_append.mp hmem with hmem | hmem
    · exact (h.apart.person a ha).1 hmem
    · rw [List.mem_singleton.mp hmem, hnew.2.2] at ha
      cases ha
  · intro v hv
    exact (h.known v hv).imp_left (List.mem_append_left _)
  · intro v hv hword
    exact (h.current v hv hword).imp_left (List.mem_append_left _)

theorem Settled.me (h : Settled s) (hnew : s.Unused record) (hsteady : s.Steady (.me record)) :
    Settled (s.me record) := by
  cases hperson : s.person with
  | some =>
    rw [Reviews.me, hperson]
    exact h
  | none =>
    rw [Reviews.me, hperson]
    have hisPerson : ∀ a, isPerson { s with person := some record } a =
        (s.isPerson a || decide (record = a)) := by
      simp [isPerson, hperson]
    have hsaid : ∀ v ∈ s.docket.recorded,
        isPerson { s with person := some record } v.byAgent = s.isPerson v.byAgent := by
      intro v hv
      rw [hisPerson, decide_eq_false, Bool.or_false]
      rintro rfl
      rcases h.known v hv with hmem | halias | hmem
      · exact hnew.1 hmem
      · rw [hnew.2.1] at halias
        cases halias
      · rw [hnew.2.2] at hmem
        cases hmem
    refine { h with
      apart := { h.apart with person := fun a ha => ?_ }
      retained := { h.retained with person := fun v hv => ?_ }
      known := fun v hv => ?_
      current := fun v hv hword => ?_ }
    · rw [hisPerson, Bool.or_eq_true, decide_eq_true_eq] at ha
      rcases ha with ha | rfl
      · exact h.apart.person a ha
      · exact ⟨hnew.1, hnew.2.1⟩
    · rw [hsaid v hv]
      exact h.retained.person v hv
    · rw [hsaid v hv]
      exact h.known v hv
    · refine Or.inl ((h.current v hv hword).resolve_right fun heq => ?_)
      refine hsteady hperson v hv hword ?_
      rw [heq, personId, hperson, Option.getD_none]

theorem Settled.retire (h : Settled s) {registry : Registry}
    (hok : s.registry.retireInto caller prior = .ok registry)
    (hsteady : ∀ v ∈ s.docket.kept, v.verdict ≠ .none → v.byAgent ≠ caller) :
    Settled { s with registry } := by
  have hflat := h.apart.flat.retireInto hok
  obtain ⟨-, -, hcaller, -, rfl⟩ := Registry.retireInto_ok hok
  have hleft : ∀ a, a ∈ (s.registry.agents.filter fun a => decide (a ≠ caller)) ↔
      a ∈ s.registry.agents ∧ a ≠ caller := fun _ => Registry.mem_left
  refine { h with apart := { hflat with person := ?_ }, known := ?_, current := ?_ }
  · intro a ha
    obtain ⟨hmem, halias⟩ := h.apart.person a ha
    refine ⟨fun hleftover => hmem ((hleft a).mp hleftover).1, ?_⟩
    rw [Keyed.get?_insert, if_neg, halias]
    rintro rfl
    exact hmem hcaller
  · intro v hv
    by_cases hby : caller = v.byAgent
    · refine Or.inr (Or.inl ?_)
      rw [Keyed.get?_insert, if_pos hby]
      rfl
    · rcases h.known v hv with hmem | halias | hperson
      · exact Or.inl ((hleft _).mpr ⟨hmem, fun heq => hby heq.symm⟩)
      · refine Or.inr (Or.inl ?_)
        rw [Keyed.get?_insert, if_neg hby]
        exact halias
      · exact Or.inr (Or.inr hperson)
  · intro v hv hword
    rcases h.current v hv hword with hmem | hperson
    · exact Or.inl ((hleft _).mpr ⟨hmem, hsteady v hv hword⟩)
    · exact Or.inr hperson

theorem Settled.resumeInput (h : Settled s) (hsteady : s.Steady (.resume prior caller lands)) :
    Settled (s.resumeInput prior caller lands) := by
  unfold Reviews.resumeInput
  split
  · split
    · next registry hok => exact h.retire hok hsteady
    · exact h
  · exact h

/-- A verdict is refused, or recorded and kept. -/
theorem give_cases (cap : Nat) (d : Docket) (given : CodeVerdict) : d.give cap given = d ∨
      ((d.give cap given).recorded = d.recorded ++ [given] ∧
        ∀ v ∈ (d.give cap given).kept, v ∈ d.kept ∨ v = given) := by
  simp only [Docket.give]
  split
  · exact Or.inl rfl
  next forget _ =>
  refine Or.inr ⟨rfl, fun v hv => ?_⟩
  rcases List.mem_append.mp hv with hv | hv
  · exact Or.inl (List.mem_filter.mp hv).1
  · exact Or.inr (List.mem_singleton.mp hv)

/-- What a verdict has to be to be recorded. -/
structure Admitted (s : Reviews) (given : CodeVerdict) : Prop where
  fresh : given.id ∉ s.docket.recorded.map (·.id)
  human : given.human = s.isPerson given.byAgent
  current : s.Current given.byAgent
  voiced : given.human = true ∨ given.roles ≠ []
  covers : given.verdict = .pass → ∀ u ∈ s.docket.kept, u.byAgent = given.byAgent →
    u.branch = given.branch → u.verdict = .changes →
    ∀ role, u.countsFor role = true → given.countsFor role = true

/-- A word that is taken comes with the next number. -/
theorem Settled.give (h : Settled s) (hgiven : Admitted s given)
    (hseq : given.seq = s.docket.nextSeq) :
    Settled { s with docket := s.docket.give verdictsPerProject given } := by
  have hretained : Retained verdictsPerProject s.isPerson
      (s.docket.give verdictsPerProject given) :=
    h.retained.give ⟨hgiven.fresh, hgiven.human⟩
  have hnumbered : Numbered (s.docket.give verdictsPerProject given) := by
    have hsame : { given with seq := s.docket.nextSeq } = given := by rw [← hseq]
    have hnext : Numbered (s.docket.codeVerdict verdictsPerProject given) :=
      h.numbered.codeVerdict given
    rwa [Docket.codeVerdict, hsame] at hnext
  have hcases := give_cases verdictsPerProject s.docket given
  generalize s.docket.give verdictsPerProject given = d at hretained hnumbered hcases ⊢
  rcases hcases with rfl | ⟨hrecorded, hkept⟩
  · exact h
  · -- what was recorded before is not the verdict given
    have hold : ∀ u ∈ s.docket.recorded, u ∈ d.kept → u ∈ s.docket.kept := by
      intro u hu hukept
      refine (hkept u hukept).resolve_right ?_
      rintro rfl
      exact hgiven.fresh (List.mem_map_of_mem hu)
    have hrecordedOr : ∀ v ∈ d.recorded, v ∈ s.docket.recorded ∨ v = given := by
      intro v hv
      rwa [hrecorded, List.mem_append, List.mem_singleton] at hv
    refine ⟨⟨h.apart.retired, h.apart.kept, h.apart.person⟩, hretained, hnumbered, ?_, ?_, ?_, ?_⟩
    · intro v hv
      rcases hrecordedOr v hv with hv | rfl
      · exact h.voiced v hv
      · exact hgiven.voiced
    · intro v hv
      rcases hrecordedOr v hv with hv | rfl
      · exact h.known v hv
      · refine hgiven.current.imp_right fun heq => Or.inr ?_
        rw [heq]
        exact s.isPerson_personId
    · intro v hv hword
      rcases hkept v hv with hv | rfl
      · exact h.current v hv hword
      · exact hgiven.current
    · rw [hrecorded, List.pairwise_append]
      refine ⟨?_, List.pairwise_singleton .., ?_⟩
      · refine h.covers.imp_of_mem fun hu _ hcovers hukept => ?_
        exact hcovers (hold _ hu hukept)
      · intro u hu w hw hukept hby hbranch hchanges hpass
        rw [List.mem_singleton.mp hw] at hby hbranch hpass ⊢
        exact hgiven.covers hpass u (hold u hu hukept) hby hbranch hchanges

theorem countsFor_mono {u : CodeVerdict} (hhuman : u.human = false) (hroles : u.roles ⊆ given.roles)
    {role : String} (h : u.countsFor role = true) :
    given.countsFor role = true := by
  simp only [CodeVerdict.countsFor, hhuman, Bool.false_or, List.any_eq_true, beq_iff_eq] at h
  obtain ⟨_, hr, rfl⟩ := h
  simp [CodeVerdict.countsFor, hroles hr]

theorem Settled.admitted (h : Settled s) (hnew : s.Generated (.verdict reviewer human said lands))
    (hsteady : s.Steady (.verdict reviewer human said lands))
    (hmay : s.mayReview reviewer human said.roles = true) (seq : Nat) :
    Admitted s { said with byAgent := reviewer, human, seq } := by
  cases human with
  | true => exact ⟨hnew, hmay.symm, Or.inr (hsteady.1 rfl), Or.inl rfl,
      by simp [CodeVerdict.countsFor]⟩
  | false =>
    obtain ⟨hcurrent, hroles⟩ := hsteady.2 rfl
    simp only [mayReview, Bool.false_eq_true, if_false, hcurrent, Bool.and_eq_true,
      decide_eq_true_eq, Bool.not_eq_true', List.isEmpty_eq_false_iff] at hmay
    have hagent : s.isPerson reviewer = false := by
      rw [Bool.eq_false_iff]
      intro hperson
      exact (h.apart.person reviewer hperson).1 hmay.1
    refine ⟨hnew, hagent.symm, Or.inl hmay.1, Or.inr hmay.2, ?_⟩
    intro hpass u hu hby hbranch hchanges role
    have hsub : u.roles ⊆
        ({ said with byAgent := reviewer, human := false, seq } : CodeVerdict).roles :=
      hroles hpass u hu hby hbranch hchanges
    refine countsFor_mono ?_ hsub
    rw [h.retained.person u (h.retained.subset hu), hby]
    exact hagent

theorem Settled.codeVerdict (h : Settled s)
    (hnew : s.Generated (.verdict reviewer human said lands))
    (hsteady : s.Steady (.verdict reviewer human said lands)) :
    Settled (s.codeVerdict reviewer human said lands) := by
  rw [Reviews.codeVerdict]
  split
  · next hmay => exact h.give (h.admitted hnew hsteady hmay.1 s.docket.nextSeq) rfl
  · exact h

theorem Settled.step (h : Settled s) {op : Op} (hnew : s.Generated op) (hsteady : s.Steady op) :
    Settled (s.step op) := by
  cases op with
  | register => exact h.register hnew
  | me => exact h.me hnew hsteady
  | verdict => exact h.codeVerdict hnew hsteady
  | resume => exact h.resumeInput hsteady

theorem settled_start {agents : List AgentId} (huser : user ∉ agents) : Settled (start agents) := by
  refine ⟨⟨?_, ?_, ?_⟩, retained_empty .., ⟨?_, List.Pairwise.nil⟩, ?_, ?_, ?_, List.Pairwise.nil⟩
  · exact fun known hknown => absurd hknown Keyed.not_mem_empty
  · exact fun known hknown => absurd hknown Keyed.not_mem_empty
  · intro a ha
    obtain rfl : a = user := by simpa [isPerson, start] using ha
    exact ⟨huser, rfl⟩
  all_goals simp [start]

/-! ## Runs -/

/-- Where reviewers with a word on file keep their ids, and an agent passes in the roles
it asked for changes in, a later pass takes the place of what was asked for. -/
theorem later_pass_replaces (agents : List AgentId) (huser : user ∉ agents) (ops : List Op)
    (hnew : Each step Generated (start agents) ops)
    (hsteady : Each step Steady (start agents) ops) :
    Always step Replaced (start agents) ops := by
  have hrun : Always step Settled (start agents) ops :=
    always_of_each (settled_start huser) (fun _ _ h hop => h.step hop.1 hop.2) (hnew.and hsteady)
  exact hrun.imp fun _ h => h.replaced

/-! ## Samples -/

instance (s : Reviews) (id : AgentId) : Decidable (s.Unused id) := by
  unfold Unused
  infer_instance

instance (s : Reviews) (op : Op) : Decidable (s.Generated op) := by
  cases op <;> unfold Generated <;> infer_instance

/-- A reviewer's word on a commit. -/
def reviewed (id : String) (verdict : Word) : CodeVerdict :=
  { id, seq := 0, branch := "feature", head := "a", byAgent := user, roles := [gateRole], verdict,
    givenAt := 0 }

/-- An agent asks for changes, the person registers and passes, the agent's session comes
back, nothing said by its new record, and the agent passes. -/
def steadyRun : List Op :=
  [.register ⟨"prior"⟩, .verdict ⟨"prior"⟩ false (reviewed "1" .changes) true, .me ⟨"person"⟩,
    .verdict ⟨"person"⟩ true (reviewed "2" .pass) true, .register ⟨"caller"⟩,
    .resume ⟨"prior"⟩ ⟨"caller"⟩ true, .verdict ⟨"prior"⟩ false (reviewed "3" .pass) true]

theorem later_pass_replaces_steadyRun : Always step Replaced (start []) steadyRun ∧
      (words (run step (start []) steadyRun).docket.kept "feature" gateRole).map
        (·.id) = ["2", "3"] :=
  have hsteady : Each step Steady (start []) steadyRun := by
    refine ⟨?_, ?_, ?_, ?_, ?_, ?_, ?_, trivial⟩ <;> unfold Steady <;> decide +kernel
  ⟨later_pass_replaces [] (by decide) steadyRun (by decide +kernel) hsteady, by decide +kernel⟩

/-- The person asks for changes, registers, and passes the same commit. -/
def personRun : List Op :=
  [.verdict user true (reviewed "1" .changes) true, .me ⟨"person"⟩,
    .verdict ⟨"person"⟩ true (reviewed "2" .pass) true]

/-- An agent asks for changes, is retired into its prior record, and passes the same commit. -/
def resumedRun : List Op :=
  [.verdict ⟨"caller"⟩ false (reviewed "1" .changes) true, .resume ⟨"prior"⟩ ⟨"caller"⟩ true,
    .verdict ⟨"prior"⟩ false (reviewed "2" .pass) true]

/-- What is asked for under an id its reviewer goes by no more stands. -/
theorem renamed_reviewer_still_blocks :
    (Each step Generated (start []) personRun ∧ ¬ Replaced (run step (start []) personRun)) ∧
      Each step Generated (start [⟨"prior"⟩, ⟨"caller"⟩]) resumedRun ∧
        ¬ Replaced (run step (start [⟨"prior"⟩, ⟨"caller"⟩]) resumedRun) := by
  refine ⟨⟨by decide +kernel, fun h => ?_⟩, by decide +kernel, fun h => ?_⟩
  · refine h [] { reviewed "1" .changes with human := true, seq := 1 } []
      { reviewed "2" .pass with byAgent := ⟨"person"⟩, human := true, seq := 2 } []
      (by decide +kernel) rfl rfl rfl rfl (by decide +kernel) (by simp) gateRole
      { reviewed "1" .changes with human := true, seq := 1 }
      (by decide +kernel) (by decide +kernel) rfl
  · refine h [] { reviewed "1" .changes with byAgent := ⟨"caller"⟩, seq := 1 } []
      { reviewed "2" .pass with byAgent := ⟨"prior"⟩, seq := 2 } []
      (by decide +kernel) rfl rfl rfl rfl (by decide +kernel) (by simp) gateRole
      { reviewed "1" .changes with byAgent := ⟨"caller"⟩, seq := 1 }
      (by decide +kernel) (by decide +kernel) rfl

end AgentDocker.Daemon.Reviews
