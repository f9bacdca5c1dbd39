import AgentDocker.Daemon.Verdicts
import AgentDocker.Lib.Runs
import Mathlib.Data.List.Dedup

/-!
# Forgetting a verdict changes no gate

A project keeps a bounded number of verdicts and forgets old ones to make room.
A gate reads, of each reviewer, the latest word on the branch among those that
count for the asked role; so it is enough that every such latest word is kept.

The invariant says just that: whatever is latest at its place among all verdicts
ever recorded, for whichever role, is kept. `toForget` guards only the roles it
can see on the verdicts at hand and the default one. A role it cannot see is
held by nobody there, so only the person's words count for it; and a person's
latest word counts for the default role too.
-/

namespace AgentDocker.Proofs

open AgentDocker.Core Daemon Lib
open CodeVerdict

/-! ## The gate reads the latest words -/

variable {given v : CodeVerdict} {d : Docket} {existing verdicts : List CodeVerdict}
  {forget : List String} {cap : Nat} {role : String}

/-- Distinct ids give distinct places in the order. -/
theorem ranked_of_nodup (h : (verdicts.map (·.id)).Nodup) : Ranked order verdicts := by
  intro v hv w hw heq
  exact List.inj_on_of_nodup_map h hv hw (id_eq_of_order_eq heq)

/-- `v` is its reviewer's standing word on its branch, for `role`. -/
abbrev Stands (verdicts : List CodeVerdict) (role : String) (v : CodeVerdict) : Prop :=
  IsLatest place order (counting verdicts role) v

theorem Stands.mono {some all : List CodeVerdict} (h : Stands all role v) (hv : v ∈ some)
    (hsub : some ⊆ all) : Stands some role v := by
  have hspeaks := (mem_counting.mp h.mem).2
  refine ⟨mem_counting.mpr ⟨hv, hspeaks⟩, fun w hw => h.le w ?_⟩
  have hw' := mem_counting.mp hw
  exact mem_counting.mpr ⟨hsub hw'.1, hw'.2⟩

theorem ranked_filter {p : CodeVerdict → Bool} (h : Ranked order verdicts) :
    Ranked order (verdicts.filter p) :=
  h.subset List.filter_sublist.subset

theorem mem_words (hrank : Ranked order verdicts) {branch : String} :
    v ∈ words verdicts branch role ↔ v.branch = branch ∧ Stands verdicts role v := by
  rw [words, mem_latest (ranked_filter hrank)]
  constructor
  · intro h
    obtain ⟨hv, hfits⟩ := List.mem_filter.mp h.mem
    simp only [Bool.and_eq_true, decide_eq_true_eq] at hfits
    refine ⟨hfits.1, mem_counting.mpr ⟨hv, hfits.2⟩, fun w hw hplace => ?_⟩
    have hw' := mem_counting.mp hw
    have hbranch : w.branch = v.branch := congrArg Prod.fst hplace
    refine h.le w (List.mem_filter.mpr ⟨hw'.1, ?_⟩) (congrArg Prod.snd hplace)
    simp [hbranch, hfits.1, hw'.2]
  · rintro ⟨rfl, h⟩
    have hv := mem_counting.mp h.mem
    refine ⟨List.mem_filter.mpr ⟨hv.1, by simp [hv.2]⟩, fun w hw hby => ?_⟩
    obtain ⟨hw, hfits⟩ := List.mem_filter.mp hw
    simp only [Bool.and_eq_true, decide_eq_true_eq] at hfits
    exact h.le w (mem_counting.mpr ⟨hw, hfits.2⟩) (Prod.ext hfits.1 hby)

/-- Two lists in which the same words stand have the same gates. -/
theorem gate_congr {others : List CodeVerdict} (hrank : Ranked order verdicts)
    (hothers : Ranked order others) (h : ∀ role v, Stands verdicts role v ↔ Stands others role v)
    {branch head : String} : gate verdicts branch head role = gate others branch head role := by
  have hwords : ∀ v, v ∈ words verdicts branch role ↔ v ∈ words others branch role := by
    intro v
    rw [mem_words hrank, mem_words hothers, h role v]
  have hranked : Ranked order (words verdicts branch role) :=
    hrank.subset fun v hv => (mem_counting.mp ((mem_words hrank).mp hv).2.mem).1
  have hmax : ∀ p : CodeVerdict → Bool, maxByKey order ((words verdicts branch role).filter p) =
        maxByKey order ((words others branch role).filter p) := by
    intro p
    refine maxByKey_congr (ranked_filter hranked) fun v => ?_
    simp only [List.mem_filter, hwords]
  simp only [gate, newest, hmax]

/-! ## What is forgotten stands for nobody -/

theorem mem_standing (hrank : Ranked order verdicts) (hrole : role ∈ rolesOf verdicts)
    (h : Stands verdicts role v) : v.id ∈ standing verdicts := by
  refine List.mem_flatMap.mpr ⟨role, hrole, List.mem_map.mpr ⟨v, ?_, rfl⟩⟩
  exact (mem_latest (ranked_filter hrank)).mpr h

theorem mem_rolesOf :
    role ∈ rolesOf verdicts ↔ (∃ v ∈ verdicts, role ∈ v.roles) ∨ role = gateRole := by
  simp [rolesOf]

variable {human : AgentId → Bool}

/-- A word that stands for any role at all is among the standing ones, where
whether a reviewer is the person is a function of the reviewer. -/
theorem mem_standing_of_stands (hrank : Ranked order verdicts)
    (hhuman : ∀ v ∈ verdicts, v.human = human v.byAgent) (h : Stands verdicts role v) :
    v.id ∈ standing verdicts := by
  obtain ⟨hv, hspeaks⟩ := mem_counting.mp h.mem
  by_cases hrole : role ∈ rolesOf verdicts
  · exact mem_standing hrank hrole h
  · simp only [speaksFor, countsFor, Bool.and_eq_true, decide_eq_true_eq, Bool.or_eq_true,
      List.any_eq_true, beq_iff_eq] at hspeaks
    -- Nobody holds the role, so the word is the person's.
    have hperson : v.human = true := by
      rcases hspeaks.2 with hperson | ⟨_, hr, rfl⟩
      · exact hperson
      · exact absurd (mem_rolesOf.mpr (.inl ⟨v, hv, hr⟩)) hrole
    refine mem_standing hrank (mem_rolesOf.mpr (.inr rfl)) ⟨mem_counting.mpr ⟨hv, ?_⟩, ?_⟩
    · simp [speaksFor, countsFor, hspeaks.1, hperson]
    · intro w hw hplace
      obtain ⟨hwmem, hwspeaks⟩ := mem_counting.mp hw
      have hby : w.byAgent = v.byAgent := congrArg Prod.snd hplace
      have hwperson : w.human = true := by
        rw [hhuman w hwmem, hby, ← hhuman v hv, hperson]
      refine h.le w (mem_counting.mpr ⟨hwmem, ?_⟩) hplace
      simp only [speaksFor, Bool.and_eq_true] at hwspeaks
      simp [speaksFor, hwspeaks.1, countsFor, hwperson]

/-- What `toForget` names: verdicts that are there, that stand for nobody, and
as many as there are too many. -/
structure Forgettable (existing : List CodeVerdict) (given : CodeVerdict) (cap : Nat)
    (forget : List String) : Prop where
  idle : ∀ id ∈ forget, id ∉ standing (existing ++ [given])
  there : forget ⊆ existing.map (·.id)
  nodup : (existing.map (·.id)).Nodup → forget.Nodup
  room : existing.length + 1 ≤ cap + forget.length

theorem toForget_spec (h : toForget existing given cap = some forget) :
    Forgettable existing given cap forget := by
  simp only [toForget] at h
  split at h
  · next hfits =>
    obtain rfl : [] = forget := by simpa using h
    exact ⟨by simp, by simp, fun _ => List.nodup_nil, by simp only [List.length_nil]; omega⟩
  · split at h
    · next hfits hlen =>
      obtain rfl := Option.some.inj h
      generalize hidle : (existing.filter fun v =>
        !(standing (existing ++ [given])).contains v.id) = idle at hlen ⊢
      generalize hle : (fun a b : CodeVerdict => decide (a.order ≤ b.order)) = le at hlen ⊢
      have hperm : (idle.mergeSort le).Perm idle := List.mergeSort_perm idle le
      have hmem : ∀ v ∈ (idle.mergeSort le).take (existing.length + 1 - cap),
          v ∈ existing ∧ v.id ∉ standing (existing ++ [given]) := by
        intro v hv
        have hv := hperm.mem_iff.mp (List.mem_of_mem_take hv)
        rw [← hidle] at hv
        simpa using hv
      refine ⟨fun id hid => ?_, fun id hid => ?_, fun hnodup => ?_, ?_⟩
      · obtain ⟨v, hv, rfl⟩ := List.mem_map.mp hid
        exact (hmem v hv).2
      · obtain ⟨v, hv, rfl⟩ := List.mem_map.mp hid
        exact List.mem_map_of_mem (hmem v hv).1
      · have hsub : (idle.map (·.id)).Nodup := by
          rw [← hidle]
          exact hnodup.sublist (List.filter_sublist.map _)
        have hsorted : ((idle.mergeSort le).map (·.id)).Nodup :=
          (hperm.map _).nodup_iff.mpr hsub
        exact hsorted.sublist ((List.take_sublist ..).map _)
      · simp only [List.length_map, List.length_take]
        omega
    · simp at h

/-- Forgetting distinct ids that are there makes that much room. -/
theorem length_forget (hthere : forget ⊆ existing.map (·.id)) (hforget : forget.Nodup) :
    (existing.filter fun v => !forget.contains v.id).length + forget.length ≤ existing.length := by
  have hsub : forget ⊆ (existing.filter fun v => forget.contains v.id).map (·.id) := by
    intro id hid
    obtain ⟨_, hv, rfl⟩ := List.mem_map.mp (hthere hid)
    exact List.mem_map_of_mem (List.mem_filter.mpr ⟨hv, by simpa using hid⟩)
  have hle := (List.subperm_of_subset hforget hsub).length_le
  have hsplit := List.length_eq_length_filter_add (l := existing) fun v => forget.contains v.id
  simp only [List.length_map] at hle
  omega

/-! ## The invariant -/

structure Retained (cap : Nat) (human : AgentId → Bool) (d : Docket) : Prop where
  capped : d.kept.length ≤ cap
  subset : d.kept ⊆ d.recorded
  nodup : (d.recorded.map (·.id)).Nodup
  keptNodup : (d.kept.map (·.id)).Nodup
  person : ∀ v ∈ d.recorded, v.human = human v.byAgent
  stands : ∀ role v, Stands d.recorded role v → v ∈ d.kept

theorem retained_empty (cap : Nat) (human : AgentId → Bool) : Retained cap human {} := by
  refine ⟨Nat.zero_le _, by simp, List.nodup_nil, List.nodup_nil, by simp, fun role v h => ?_⟩
  exact (mem_counting.mp h.mem).1

/-- The same words stand among the kept verdicts as among all recorded. -/
theorem Retained.stands_iff (h : Retained cap human d) (role : String) (v : CodeVerdict) :
    Stands d.kept role v ↔ Stands d.recorded role v := by
  constructor
  · intro hv
    obtain ⟨hmem, hspeaks⟩ := mem_counting.mp hv.mem
    refine ⟨mem_counting.mpr ⟨h.subset hmem, hspeaks⟩, fun w hw hplace => ?_⟩
    -- The latest of the place is kept, so `v` is not behind it.
    obtain ⟨u, hu, huplace, hwu⟩ := exists_isLatest place order hw
    have hspeaksU := (mem_counting.mp hu.mem).2
    have hkept := mem_counting.mpr ⟨h.stands role u hu, hspeaksU⟩
    exact hwu.trans (hv.le u hkept (huplace.trans hplace))
  · intro hv
    exact hv.mono (h.stands role v hv) h.subset

theorem Retained.gate_eq (h : Retained cap human d) (branch head role : String) :
    gate d.kept branch head role = gate d.recorded branch head role :=
  gate_congr (ranked_of_nodup h.keptNodup) (ranked_of_nodup h.nodup) h.stands_iff

/-- A verdict nobody gave before, by someone who is the person or not. -/
def Fresh (human : AgentId → Bool) (d : Docket) (given : CodeVerdict) : Prop :=
  given.id ∉ d.recorded.map (·.id) ∧ given.human = human given.byAgent

theorem nodup_append_given (h : (verdicts.map (·.id)).Nodup)
    (hnew : given.id ∉ verdicts.map (·.id)) : ((verdicts ++ [given]).map (·.id)).Nodup := by
  rw [List.map_append]
  exact h.append (List.nodup_singleton _) (by simpa using hnew)

theorem person_append_given (h : ∀ v ∈ d.recorded, v.human = human v.byAgent)
    (hfresh : Fresh human d given) : ∀ v ∈ d.recorded ++ [given], v.human = human v.byAgent := by
  intro v hv
  rcases List.mem_append.mp hv with hv | hv
  · exact h v hv
  · rw [List.mem_singleton.mp hv]
    exact hfresh.2

/-- A recorded verdict: what stands afterwards was standing before, is guarded
by `toForget`, or is the new one. -/
theorem Retained.stays (h : Retained cap human d) (hfresh : Fresh human d given)
    (hforget : Forgettable d.kept given cap forget) (hv : Stands (d.recorded ++ [given]) role v) :
    v ∈ (d.kept.filter fun v => !forget.contains v.id) ++ [given] := by
  rcases List.mem_append.mp (mem_counting.mp hv.mem).1 with hold | hnew
  · have hkept : v ∈ d.kept :=
      h.stands role v (hv.mono hold (List.subset_append_left ..))
    have hsub : d.kept ++ [given] ⊆ d.recorded ++ [given] :=
      List.append_subset.mpr ⟨List.subset_append_of_subset_left _ h.subset,
        List.subset_append_right ..⟩
    have hnodup := nodup_append_given h.keptNodup fun hid =>
      hfresh.1 (List.map_subset _ h.subset hid)
    have hperson := person_append_given h.person hfresh
    have hstays : v.id ∈ standing (d.kept ++ [given]) :=
      mem_standing_of_stands (ranked_of_nodup hnodup) (fun w hw => hperson w (hsub hw))
        (hv.mono (List.mem_append_left _ hkept) hsub)
    refine List.mem_append_left _ (List.mem_filter.mpr ⟨hkept, ?_⟩)
    simpa using fun hid => hforget.idle v.id hid hstays
  · exact List.mem_append_right _ hnew

theorem Retained.give (h : Retained cap human d) (hfresh : Fresh human d given) :
    Retained cap human (d.give cap given) := by
  simp only [Docket.give]
  split
  · exact h
  next forget hforget =>
  have hspec := toForget_spec hforget
  have hsub : (d.kept.filter fun v => !forget.contains v.id) ⊆ d.recorded :=
    fun v hv => h.subset (List.mem_filter.mp hv).1
  refine ⟨?_, ?_, nodup_append_given h.nodup hfresh.1, ?_,
    person_append_given h.person hfresh, fun role v hv => h.stays hfresh hspec hv⟩
  · have hroom := hspec.room
    have hlen := length_forget hspec.there (hspec.nodup h.keptNodup)
    simp only [List.length_append, List.length_singleton]
    omega
  · exact List.append_subset.mpr ⟨List.subset_append_of_subset_left _ hsub,
      List.subset_append_right ..⟩
  · refine nodup_append_given (h.keptNodup.sublist (List.filter_sublist.map _)) ?_
    exact fun hid => hfresh.1 (List.map_subset _ hsub hid)

/-- Nothing but what was given is recorded. -/
theorem recorded_give : (d.give cap given).recorded ⊆ d.recorded ++ [given] := by
  simp only [Docket.give]
  split
  · exact List.subset_append_left ..
  · exact List.Subset.refl _

theorem each_fresh {given : List CodeVerdict} (hid : (given.map (·.id)).Nodup)
    (hhuman : ∀ v ∈ given, v.human = human v.byAgent)
    (hnew : ∀ v ∈ given, v.id ∉ d.recorded.map (·.id)) :
    Each (Docket.give cap) (Fresh human) d given := by
  induction given generalizing d with
  | nil => exact trivial
  | cons v _ ih =>
    simp only [List.map_cons, List.nodup_cons] at hid
    rw [List.forall_mem_cons] at hhuman hnew
    refine ⟨⟨hnew.1, hhuman.1⟩, ih hid.2 hhuman.2 fun w hw hmem => ?_⟩
    have hmem := List.map_subset _ recorded_give hmem
    simp only [List.map_append, List.mem_append] at hmem
    rcases hmem with hold | hlast
    · exact hnew.2 w hw hold
    · have heq : w.id = v.id := by simpa using hlast
      exact hid.1 (heq ▸ List.mem_map_of_mem hw)

/-- However the verdicts are numbered and dated, the number kept stays within
the cap, and every gate over the kept ones is the gate over all recorded. -/
theorem retention_exact (cap : Nat) (human : AgentId → Bool) (given : List CodeVerdict)
    (hid : (given.map (·.id)).Nodup) (hhuman : ∀ v ∈ given, v.human = human v.byAgent) :
    Always (Docket.give cap)
      (fun d => d.kept.length ≤ cap ∧
        ∀ branch head role, gate d.kept branch head role = gate d.recorded branch head role)
      {} given := by
  have hrun : Always (Docket.give cap) (Retained cap human) {} given :=
    always_of_each (retained_empty cap human) (fun _ _ h hfresh => h.give hfresh)
      (each_fresh hid hhuman (by simp))
  exact hrun.imp fun d h => ⟨h.capped, h.gate_eq⟩

/-- A reviewer asks for changes, then passes a later commit; another passes. -/
def threeVerdicts : List CodeVerdict :=
  [{ id := "1", seq := 1, branch := "feature", head := "a", byAgent := ⟨"r1"⟩,
     roles := ["reviewer"], verdict := .changes, givenAt := 0 },
   { id := "2", seq := 2, branch := "feature", head := "b", byAgent := ⟨"r1"⟩,
     roles := ["reviewer"], verdict := .pass, givenAt := 1 },
   { id := "3", seq := 3, branch := "feature", head := "a", byAgent := ⟨"r2"⟩,
     roles := ["security"], verdict := .pass, givenAt := 2 }]

theorem retention_exact_threeVerdicts : (threeVerdicts.map (·.id)).Nodup ∧ Always (Docket.give 2)
        (fun d => d.kept.length ≤ 2 ∧
          ∀ branch head role, gate d.kept branch head role = gate d.recorded branch head role)
        {} threeVerdicts :=
  ⟨by decide, retention_exact 2 (fun _ => false) threeVerdicts (by decide) (by decide)⟩

/-! ## The daemon's numbering -/

theorem seq_lt_nextSeq (hv : v ∈ d.kept) : v.seq < d.nextSeq := by
  have hmem : v.seq ∈ d.kept.map (·.seq) := List.mem_map_of_mem hv
  cases hmax : (d.kept.map (·.seq)).max? with
  | none => simp [List.max?_eq_none_iff.mp hmax] at hmem
  | some top =>
    have hle : v.seq ≤ top := (List.max?_eq_some_iff.mp hmax).2 _ hmem
    simp only [Docket.nextSeq, hmax, Option.getD_some]
    omega

/-- Every verdict recorded so far is behind the next one, and they were numbered
in the order they were given. -/
structure Numbered (d : Docket) : Prop where
  behind : ∀ v ∈ d.recorded, v.seq < d.nextSeq
  increasing : d.recorded.Pairwise fun v w => v.seq < w.seq

theorem Numbered.codeVerdict (h : Numbered d) (said : CodeVerdict) :
    Numbered (d.codeVerdict cap said) := by
  simp only [Docket.codeVerdict, Docket.give]
  split
  · exact h
  next forget hforget =>
  -- The new verdict is kept, whatever is forgotten for it.
  have hnext := seq_lt_nextSeq
    (d := ⟨(d.kept.filter fun v => !forget.contains v.id) ++ [{ said with seq := d.nextSeq }],
      d.recorded ++ [{ said with seq := d.nextSeq }]⟩)
    (List.mem_append_right _ (List.mem_singleton.mpr rfl))
  refine ⟨fun v hv => ?_, ?_⟩
  · rcases List.mem_append.mp hv with hv | hv
    · exact (h.behind v hv).trans hnext
    · rw [List.mem_singleton.mp hv]
      exact hnext
  · rw [List.pairwise_append]
    refine ⟨h.increasing, List.pairwise_singleton .., fun v hv w hw => ?_⟩
    rw [List.mem_singleton.mp hw]
    exact h.behind v hv

/-- The numbers the daemon gives increase over every run, although it reads the
next one off the verdicts it still keeps. -/
theorem codeVerdict_increasing {said : List CodeVerdict} :
    Always (Docket.codeVerdict cap)
      (fun d => d.recorded.Pairwise fun v w => v.seq < w.seq) {} said := by
  have hrun : Always (Docket.codeVerdict cap) Numbered {} said :=
    always_of_invariant ⟨by simp, List.Pairwise.nil⟩ fun _ said h => h.codeVerdict said
  exact hrun.imp fun _ h => h.increasing

end AgentDocker.Proofs
