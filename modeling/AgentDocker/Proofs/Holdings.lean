import AgentDocker.Lib.Runs
import AgentDocker.Store.Holdings

/-!
# The kept role history is exact

`log` is the history with nothing lost: the same intervals in a list that replaces
no row and prunes none. A time is in the interval of the last change before it, so
the log answers every question. The table may lack rows of the log, but only
intervals of no length, which another under their key took the place of, and
intervals that ended before the boundary; neither covers a time from the boundary
on.
-/

namespace AgentDocker.Store.Holdings

open AgentDocker.Core Lib Keyed

/-! ## Changes and what they say -/

/-- A change of one agent's roles. -/
structure Change where
  registered : Time
  before : Option String
  after : Option String
  time : Time

/-- The changes of an agent in a run. -/
def changes (agent : String) (ops : List Op) : List Change :=
  ops.filterMap fun
    | .roleChanged other registered before after now =>
      if other = agent then some ⟨registered, before, after, now⟩ else none
    | _ => none

/-- Roles as they are told: the empty label is none. -/
def told (role : Option String) : Option String := roleOf (labelOf role)

/-- The role in force at a time by a history: what the last change up to then
made it. Before the first change it is what that one changed, since the agent was
registered and, for want of another, before; when the first change came no later
than the registration nothing before it is known, and a first record tells. -/
def InForce (history : List Change) (time : Time) (role : Option String) : Prop :=
  match (history.filter fun c => decide (c.time ≤ time)).getLast? with
  | some last => role = told last.after
  | none =>
    ∃ first, history.head? = some first ∧
      if first.registered < first.time then role = told first.before
      else ∃ c ∈ history, c.time = first.time ∧ role = told c.after

/-- Recorded at non-decreasing times. -/
def Ordered (history : List Change) : Prop := history.Pairwise fun c d => c.time ≤ d.time

variable {c : Change} {h : Holding} {history : List Change} {agent : String}

/-- A change after a time is not in force then. -/
theorem InForce.snoc {time : Time} {role : Option String} (h : InForce history time role)
    (hlt : time < c.time) : InForce (history ++ [c]) time role := by
  have hfilter : (history ++ [c]).filter (fun c => decide (c.time ≤ time)) =
      history.filter fun c => decide (c.time ≤ time) := by
    rw [List.filter_append, List.filter_cons_of_neg (by simpa using hlt), List.filter_nil,
      List.append_nil]
  unfold InForce at h ⊢
  rw [hfilter]
  split
  · next last hlast =>
    rw [hlast] at h
    exact h
  next hnone =>
  rw [hnone] at h
  obtain ⟨first, hfirst, hrole⟩ := h
  refine ⟨first, by rw [List.head?_append, hfirst, Option.some_or], ?_⟩
  split
  · next hlt => rwa [if_pos hlt] at hrole
  next hle =>
  rw [if_neg hle] at hrole
  obtain ⟨d, hd, hrole⟩ := hrole
  exact ⟨d, List.mem_append_left _ hd, hrole⟩

/-! ## The log -/

/-- The first change kept also keeps what was before it. -/
def firstRecord (agent : String) (log : List Holding) (c : Change) : List Holding :=
  if log = [] ∧ c.registered < c.time then
    [⟨agent, .role, c.registered, some c.time, labelOf c.before⟩]
  else []

def record (agent : String) (log : List Holding) (c : Change) : List Holding :=
  log.map (close agent c.time) ++ firstRecord agent log c ++
    [⟨agent, .role, c.time, none, labelOf c.after⟩]

def log (agent : String) (history : List Change) : List Holding :=
  history.foldl (record agent) []

theorem log_snoc : log agent (history ++ [c]) = record agent (log agent history) c := by
  rw [log, List.foldl_append]
  rfl

theorem mem_firstRecord {log : List Holding} :
    h ∈ firstRecord agent log c ↔ log = [] ∧ c.registered < c.time ∧
      h = ⟨agent, .role, c.registered, some c.time, labelOf c.before⟩ := by
  unfold firstRecord
  split
  · next hfirst => simp [hfirst]
  next hfirst =>
  simp only [List.not_mem_nil, false_iff]
  exact fun h => hfirst ⟨h.1, h.2.1⟩

theorem mem_record {log : List Holding} :
    h ∈ record agent log c ↔ (∃ h₀ ∈ log, h = close agent c.time h₀) ∨ h ∈ firstRecord agent log c ∨
      h = ⟨agent, .role, c.time, none, labelOf c.after⟩ := by
  simp only [record, List.mem_append, List.mem_map, List.mem_singleton, or_assoc, eq_comm]

theorem log_eq_nil : log agent history = [] ↔ history = [] := by
  refine ⟨fun h => ?_, fun h => by rw [h]; rfl⟩
  induction history using List.reverseRecOn with
  | nil => rfl
  | append_singleton =>
    rw [log_snoc, record] at h
    simp at h

section

variable {agent : String} {history : List Change} {h : Holding}

variable {c first : Change} {time : Time}

theorem ordered_snoc (hordered : Ordered (history ++ [c])) :
    Ordered history ∧ ∀ d ∈ history, d.time ≤ c.time := by
  obtain ⟨hinit, -, hle⟩ := List.pairwise_append.mp hordered
  exact ⟨hinit, fun d hd => hle d hd c (List.mem_singleton_self c)⟩

theorem log_mine (hh : h ∈ log agent history) : h.agent = agent ∧ h.kind = .role := by
  induction history using List.reverseRecOn generalizing h with
  | nil => cases hh
  | append_singleton _ _ ih =>
    rw [log_snoc, mem_record, mem_firstRecord] at hh
    rcases hh with ⟨_, hh₀, rfl⟩ | ⟨-, -, rfl⟩ | rfl
    · have := ih hh₀
      unfold close
      split <;> exact this
    · exact ⟨rfl, rfl⟩
    · exact ⟨rfl, rfl⟩

/-- A row of the log that is open is closed, and no other changes. -/
theorem close_log (hh : h ∈ log agent history) (now : Time) :
    close agent now h = { h with upTo := some (h.upTo.getD now) } := by
  obtain ⟨hagent, hkind⟩ := log_mine hh
  unfold close isOpen
  cases hupTo : h.upTo with
  | none => simp [hagent, hkind]
  | some =>
    simp only [Option.isNone_some, Bool.and_false, Bool.false_eq_true, if_false, Option.getD_some]
    rw [← hupTo]

/-- Intervals end when a change says so. -/
theorem log_upTo {upTo : Time} (hh : h ∈ log agent history) (hupTo : h.upTo = some upTo) :
    ∃ c ∈ history, upTo = c.time := by
  induction history using List.reverseRecOn generalizing h upTo with
  | nil => cases hh
  | append_singleton _ c ih =>
    rw [log_snoc, mem_record, mem_firstRecord] at hh
    rcases hh with ⟨h₀, hh₀, rfl⟩ | ⟨-, -, rfl⟩ | rfl
    · rw [close_log hh₀] at hupTo
      cases hopen : h₀.upTo with
      | none =>
        rw [hopen] at hupTo
        exact ⟨c, by simp, (Option.some.inj hupTo).symm⟩
      | some =>
        rw [hopen] at hupTo
        obtain ⟨d, hd, heq⟩ := ih hh₀ hopen
        exact ⟨d, List.mem_append_left _ hd, (Option.some.inj hupTo).symm.trans heq⟩
    · exact ⟨c, by simp, (Option.some.inj hupTo).symm⟩
    · cases hupTo

/-- An interval closed by a change covers what it covered, before the change. -/
theorem covers_close (hle : ∀ d ∈ history, d.time ≤ c.time) (hh : h ∈ log agent history) :
    Covers (close agent c.time h) time ↔ Covers h time ∧ time < c.time := by
  rw [close_log hh]
  cases hupTo : h.upTo with
  | none => simp [Covers, hupTo]
  | some =>
    obtain ⟨d, hd, rfl⟩ := log_upTo hh hupTo
    have := hle d hd
    simp only [Covers, hupTo, Option.getD_some, Option.some.injEq, forall_eq', and_assoc]
    constructor
    · intro h
      exact ⟨h.1, h.2, Int.lt_of_lt_of_le h.2 this⟩
    · intro h
      exact ⟨h.1, h.2.1⟩

/-- The role an interval is of is in force at every time it covers. -/
theorem inForce_of_covers (hordered : Ordered history) (hh : h ∈ log agent history)
    (hcovers : Covers h time) :
    InForce history time (roleOf h.value) := by
  induction history using List.reverseRecOn generalizing h with
  | nil => cases hh
  | append_singleton history c ih =>
    obtain ⟨hinit, hle⟩ := ordered_snoc hordered
    rw [log_snoc, mem_record, mem_firstRecord] at hh
    rcases hh with ⟨_, hh₀, rfl⟩ | ⟨hnil, hlt, rfl⟩ | rfl
    · obtain ⟨hcovers₀, hlt⟩ := (covers_close hle hh₀).mp hcovers
      have hforce := ih hinit hh₀ hcovers₀
      rw [close_log hh₀]
      exact hforce.snoc hlt
    · rw [log_eq_nil] at hnil
      subst hnil
      have hbefore : time < c.time := hcovers.2 c.time rfl
      simp only [InForce, List.nil_append, List.filter_cons, List.filter_nil,
        decide_eq_false (Int.not_le.mpr hbefore), Bool.false_eq_true, if_false, List.getLast?_nil]
      exact ⟨c, rfl, by rw [if_pos hlt]; rfl⟩
    · have hall : (history ++ [c]).filter (fun c => decide (c.time ≤ time)) = history ++ [c] := by
        refine List.filter_eq_self.mpr fun d hd => decide_eq_true ?_
        rcases List.mem_append.mp hd with hd | hd
        · exact Int.le_trans (hle d hd) hcovers.1
        · rw [List.mem_singleton.mp hd]
          exact hcovers.1
      simp only [InForce, hall, List.getLast?_append, List.getLast?_singleton, Option.some_or]
      rfl

/-- From the start of the log on every time is covered. -/
theorem exists_covers (hordered : Ordered history) (hh : h ∈ log agent history)
    (hsince : h.since ≤ time) : ∃ h' ∈ log agent history, Covers h' time := by
  induction history using List.reverseRecOn generalizing h with
  | nil => cases hh
  | append_singleton _ c ih =>
    obtain ⟨hinit, hle⟩ := ordered_snoc hordered
    simp only [log_snoc, mem_record, mem_firstRecord] at hh ⊢
    by_cases htime : c.time ≤ time
    · exact ⟨_, .inr (.inr rfl), htime, by simp⟩
    · have htime : time < c.time := Int.not_le.mp htime
      rcases hh with ⟨_, hh₀, rfl⟩ | ⟨hnil, hlt, rfl⟩ | rfl
      · rw [close_log hh₀] at hsince
        obtain ⟨h', hh', hcovers⟩ := ih hinit hh₀ hsince
        exact ⟨_, .inl ⟨h', hh', rfl⟩, (covers_close hle hh').mpr ⟨hcovers, htime⟩⟩
      · refine ⟨_, .inr (.inl ⟨hnil, hlt, rfl⟩), hsince, ?_⟩
        intro upTo hupTo
        cases hupTo
        exact htime
      · exact absurd hsince (Int.not_le.mpr htime)

/-- What the rows of the log are of, in order: what was before the first change,
then the changes. Closing a row leaves when it began and what it is of. -/
theorem log_begins (agent : String) (first : Change) (rest : List Change) :
    (log agent (first :: rest)).map (fun h => (h.since, h.value)) =
      (if first.registered < first.time then [(first.registered, labelOf first.before)] else []) ++
        (first :: rest).map fun c => (c.time, labelOf c.after) := by
  have hclose : ∀ now, (fun h : Holding => (h.since, h.value)) ∘ close agent now =
      fun h => (h.since, h.value) := by
    intro now
    funext h
    simp only [Function.comp_apply, close]
    split <;> rfl
  induction rest using List.reverseRecOn with
  | nil =>
    simp only [log, List.foldl_cons, List.foldl_nil, record, firstRecord, true_and]
    split <;> rfl
  | append_singleton rest _ ih =>
    have hne : log agent (first :: rest) ≠ [] := fun h => List.cons_ne_nil _ _ (log_eq_nil.mp h)
    rw [← List.cons_append, log_snoc, record, firstRecord, if_neg fun h => hne h.1]
    simp [List.map_map, hclose, ih]

theorem first_le {rest : List Change} (hordered : Ordered (first :: rest))
    (hc : c ∈ first :: rest) : first.time ≤ c.time := by
  rcases List.mem_cons.mp hc with rfl | hc
  · exact Int.le_refl _
  · exact (List.pairwise_cons.mp hordered).1 c hc

/-- A time before the log is told by a row that begins it. -/
theorem inForce_of_first (hordered : Ordered history) (hh : h ∈ log agent history)
    (hleast : ∀ h' ∈ log agent history, h.since ≤ h'.since) (hbefore : time < h.since) :
    InForce history time (roleOf h.value) := by
  cases history with
  | nil => cases hh
  | cons first rest =>
    have hbegins := log_begins agent first rest
    have hlater : ∀ since value, (since, value) ∈
        (log agent (first :: rest)).map (fun h => (h.since, h.value)) → h.since ≤ since := by
      intro since value hmem
      obtain ⟨h', hh', heq⟩ := List.mem_map.mp hmem
      exact (Prod.mk.inj heq).1 ▸ hleast h' hh'
    have hmem := List.mem_map_of_mem (f := fun h => (h.since, h.value)) hh
    rw [hbegins] at hlater hmem
    have hchanges : ∀ c ∈ first :: rest, h.since ≤ c.time := fun c hc =>
      hlater _ _ (List.mem_append_right _ (List.mem_map_of_mem hc))
    have hnone : (first :: rest).filter (fun c => decide (c.time ≤ time)) = [] := by
      refine List.filter_eq_nil_iff.mpr fun c hc => ?_
      rw [decide_eq_true_eq]
      exact Int.not_le.mpr (Int.lt_of_lt_of_le hbefore (hchanges c hc))
    simp only [InForce, hnone, List.getLast?_nil]
    refine ⟨first, rfl, ?_⟩
    split
    · next hlt =>
      rw [if_pos hlt] at hlater hmem
      rcases List.mem_append.mp hmem with hmem | hmem
      · rw [(Prod.mk.inj (List.mem_singleton.mp hmem)).2]
        rfl
      · -- the interval before the first change would have begun the log
        obtain ⟨_, hc, heq⟩ := List.mem_map.mp hmem
        have hle := hlater _ _ (List.mem_append_left _ (List.mem_singleton_self _))
        rw [← (Prod.mk.inj heq).1] at hle
        exact absurd (Int.lt_of_le_of_lt hle hlt) (Int.not_lt.mpr (first_le hordered hc))
    · next hlt =>
      rw [if_neg hlt, List.nil_append] at hmem
      obtain ⟨c, hc, heq⟩ := List.mem_map.mp hmem
      obtain ⟨hsince, hvalue⟩ := Prod.mk.inj heq
      refine ⟨c, hc, Int.le_antisymm ?_ (first_le hordered hc), ?_⟩
      · rw [hsince]
        exact hchanges first (List.mem_cons_self ..)
      · rw [← hvalue]
        rfl

end

/-! ## The table -/

/-- An interval of some length. -/
def Lasting (h : Holding) : Prop := ∀ upTo, h.upTo = some upTo → h.since < upTo

/-- The table has the log's rows and no others of the agent's; those it lacks had no
length or ended before the boundary. -/
structure Keeps (agent : String) (history : List Change) (s : Holdings) : Prop where
  sound : ∀ h ∈ s.rows, h.agent = agent → h.kind = .role → h ∈ log agent history
  complete : ∀ h ∈ log agent history, Lasting h →
    (∀ upTo since, h.upTo = some upTo → s.retainedSince = some since → since ≤ upTo) → h ∈ s.rows

section

variable {agent : String} {history : List Change} {s : Holdings}

theorem Keeps.empty (agent : String) : Keeps agent [] Holdings.empty where
  sound h hh := by cases hh
  complete h hh := by cases hh

/-- A row of another agent or kind put in. -/
theorem Keeps.insert (h : Keeps agent history s) {row : Holding}
    (hother : ¬ (row.agent = agent ∧ row.kind = .role)) :
    Keeps agent history { s with rows := s.rows.insert row } where
  sound r hr hagent hkind := by
    rcases mem_insert.mp hr with rfl | ⟨hr, -⟩
    · exact absurd ⟨hagent, hkind⟩ hother
    · exact h.sound r hr hagent hkind
  complete r hr hlasting hkept := by
    refine mem_insert.mpr (.inr ⟨h.complete r hr hlasting hkept, fun hkey => hother ?_⟩)
    obtain ⟨hagent, hkind⟩ := log_mine hr
    have hkey := Prod.mk.inj hkey
    exact ⟨hkey.1.symm.trans hagent, (Prod.mk.inj hkey.2).1.symm.trans hkind⟩

theorem Keeps.holdingEnded (h : Keeps agent history s) (isCard : String → Bool) (lease : Lease)
    (now : Time) : Keeps agent history (s.usageHoldingEnded isCard lease now) := by
  unfold usageHoldingEnded
  dsimp only
  split
  · exact h.insert (by simp)
  · exact h

variable {r : Holding} {other : String} {time : Time}

theorem close_other (hne : other ≠ agent) {now : Time} (hagent : r.agent = agent) :
    close other now r = r := by
  unfold close isOpen
  rw [hagent, decide_eq_false (Ne.symm hne), Bool.false_and, Bool.false_and]
  rfl

theorem close_agent {now : Time} : (close agent now r).agent = r.agent := by
  unfold close
  split <;> rfl

theorem Keeps.changedOther (h : Keeps agent history s) (hne : other ≠ agent) {registered : Time}
    {before after : Option String} {now : Time} :
    Keeps agent history (s.usageRoleChanged other registered before after now) := by
  have hclosed : Keeps agent history
      { s with rows := s.rows.update (close other now) (close_key other now) } := by
    constructor
    · intro r hr hagent hkind
      rw [mem_update] at hr
      obtain ⟨r₀, hr₀, rfl⟩ := hr
      rw [close_agent] at hagent
      rw [close_other hne hagent] at hkind ⊢
      exact h.sound r₀ hr₀ hagent hkind
    · intro r hr hlasting hkept
      rw [mem_update]
      exact ⟨r, h.complete r hr hlasting hkept, close_other hne (log_mine hr).1⟩
  unfold usageRoleChanged
  split
  · exact (hclosed.insert (by simp [hne])).insert (by simp [hne])
  · exact hclosed.insert (by simp [hne])

theorem Keeps.prune (h : Keeps agent history s) (requested : Time) (takes : Holding → Bool) :
    Keeps agent history (s.pruneUsage requested takes) where
  sound r hr := h.sound r (mem_filter.mp hr).1
  complete r hr hlasting hkept := by
    have hle : ∀ committed, s.retainedSince = some committed →
        (committed : Int) ≤ Usage.later committed requested := by
      intro committed _
      unfold Usage.later
      split
      · assumption
      · exact Int.le_refl _
    refine mem_filter.mpr ⟨h.complete r hr hlasting fun upTo since hupTo hsince => ?_, ?_⟩
    · refine Int.le_trans (hle since hsince) (hkept upTo _ hupTo ?_)
      simp [pruneUsage, hsince]
    · cases hupTo : r.upTo with
      | none => simp
      | some upTo =>
        have := hkept upTo _ hupTo rfl
        simp [Int.not_lt.mpr this]

/-- Whether the agent's roles are open in the table is whether they ever changed. -/
theorem Keeps.open_iff (h : Keeps agent history s) :
    (s.rows.rows.filter (isOpen agent)).length = 0 ↔ history = [] := by
  rw [List.length_eq_zero_iff]
  constructor
  · intro hnone
    by_contra hne
    obtain ⟨init, c, rfl⟩ : ∃ init c, history = init ++ [c] :=
      ⟨history.dropLast, history.getLast hne, (List.dropLast_append_getLast hne).symm⟩
    have hmem : (⟨agent, .role, c.time, none, labelOf c.after⟩ : Holding) ∈
        log agent (init ++ [c]) := by
      rw [log_snoc, mem_record]
      exact .inr (.inr rfl)
    have hrow := h.complete _ hmem nofun nofun
    have := List.filter_eq_nil_iff.mp hnone _ hrow
    simp [isOpen] at this
  · rintro rfl
    refine List.filter_eq_nil_iff.mpr fun r hr hopen => ?_
    simp only [isOpen, Bool.and_eq_true, decide_eq_true_eq] at hopen
    cases h.sound r hr hopen.1.1 hopen.1.2

/-- A change of the agent's own roles is a change of the log. -/
theorem Keeps.changed (h : Keeps agent history s) (c : Change)
    (hle : ∀ d ∈ history, d.time ≤ c.time) :
    Keeps agent (history ++ [c])
      (s.usageRoleChanged agent c.registered c.before c.after c.time) := by
  have hrows : ∀ r, r ∈ (s.usageRoleChanged agent c.registered c.before c.after c.time).rows ↔
      r = ⟨agent, .role, c.time, none, labelOf c.after⟩ ∨
        ((r ∈ firstRecord agent (log agent history) c ∨
          ((∃ r₀ ∈ s.rows, close agent c.time r₀ = r) ∧
            ∀ first ∈ firstRecord agent (log agent history) c, r.key ≠ first.key)) ∧
          r.key ≠ (agent, .role, c.time, labelOf c.after)) := by
    intro r
    unfold usageRoleChanged firstRecord
    rw [mem_insert]
    simp only [h.open_iff, log_eq_nil]
    by_cases hfirst : history = [] ∧ c.registered < c.time
    · rw [if_pos hfirst, if_pos hfirst, mem_insert, mem_update]
      simp [Holding.key]
    · rw [if_neg hfirst, if_neg hfirst, mem_update]
      simp [Holding.key]
  constructor
  · intro r hr hagent hkind
    rw [log_snoc, mem_record]
    rcases (hrows r).mp hr with rfl | ⟨hr | ⟨⟨r₀, hr₀, rfl⟩, -⟩, -⟩
    · exact .inr (.inr rfl)
    · exact .inr (.inl hr)
    · have hkind₀ : r₀.kind = .role := by
        unfold close at hkind
        split at hkind <;> exact hkind
      exact .inl ⟨r₀, h.sound r₀ hr₀ (close_agent ▸ hagent) hkind₀, rfl⟩
  · intro r hr hlasting hkept
    rw [log_snoc, mem_record] at hr
    rw [hrows]
    rcases hr with ⟨r₀, hr₀, rfl⟩ | hr | rfl
    · have hclose := close_log hr₀ c.time
      -- an interval that lasts began before this change
      have hbegan : r₀.since < c.time := by
        rw [hclose] at hlasting
        have hlt : r₀.since < r₀.upTo.getD c.time := hlasting _ rfl
        cases hupTo : r₀.upTo with
        | none => rwa [hupTo] at hlt
        | some =>
          rw [hupTo] at hlt
          obtain ⟨d, hd, rfl⟩ := log_upTo hr₀ hupTo
          exact Int.lt_of_lt_of_le hlt (hle d hd)
      have hmem : r₀ ∈ s.rows := by
        refine h.complete r₀ hr₀ (fun upTo hupTo => ?_) fun upTo since hupTo hsince => ?_
        · rw [hclose, hupTo] at hlasting
          exact hlasting upTo rfl
        · refine hkept upTo since ?_ hsince
          rw [hclose, hupTo]
          rfl
      refine .inr ⟨.inr ⟨⟨r₀, hmem, rfl⟩, fun first hfirst => ?_⟩, fun hkey => ?_⟩
      · rw [(mem_firstRecord.mp hfirst).1] at hr₀
        cases hr₀
      · rw [close_key] at hkey
        have hsince : r₀.since = c.time := congrArg (·.2.2.1) hkey
        exact absurd hbegan (by rw [hsince]; exact Int.lt_irrefl _)
    · refine .inr ⟨.inl hr, fun hkey => ?_⟩
      obtain ⟨-, hlt, rfl⟩ := mem_firstRecord.mp hr
      have hsince : c.registered = c.time := congrArg (·.2.2.1) hkey
      exact absurd hlt (by rw [hsince]; exact Int.lt_irrefl _)
    · exact .inl rfl

/-! ## What is asked of it -/

/-- The time is not before the boundary. -/
def Retains (s : Holdings) (time : Time) : Prop :=
  ∀ since, s.retainedSince = some since → since ≤ time

theorem mem_held {scan : Scan} {h : Holding} :
    h ∈ s.held scan agent .role ↔ h ∈ s.rows ∧ h.agent = agent ∧ h.kind = .role := by
  rw [held, (scan.perm _).mem_iff, List.mem_filter, Bool.and_eq_true, decide_eq_true_eq,
    decide_eq_true_eq]
  rfl

theorem Keeps.held_subset (h : Keeps agent history s) {scan : Scan}
    (hr : r ∈ s.held scan agent .role) : r ∈ log agent history := by
  obtain ⟨hr, hagent, hkind⟩ := mem_held.mp hr
  exact h.sound r hr hagent hkind

/-- A row of the log that covers a kept time, or lies behind one, is in the table. -/
theorem Keeps.mem_of_after (h : Keeps agent history s) {scan : Scan} (htime : s.Retains time)
    (hr : r ∈ log agent history) (hlasting : Lasting r)
    (hafter : ∀ upTo, r.upTo = some upTo → time ≤ upTo) : r ∈ s.held scan agent .role := by
  obtain ⟨hagent, hkind⟩ := log_mine hr
  refine mem_held.mpr ⟨h.complete r hr hlasting fun upTo since hupTo hsince => ?_, hagent, hkind⟩
  exact Int.le_trans (htime since hsince) (hafter upTo hupTo)

theorem Covers.lasting (h : Covers r time) : Lasting r :=
  fun upTo hupTo => Int.lt_of_le_of_lt h.1 (h.2 upTo hupTo)

/-- The log begins with a row that lasts. -/
theorem exists_first_lasting (hordered : Ordered history) (hne : history ≠ []) :
    ∃ r ∈ log agent history, Lasting r ∧ ∀ r' ∈ log agent history, r.since ≤ r'.since := by
  -- the least beginning is covered, and by nothing that began later
  have hlog : log agent history ≠ [] := fun h => hne (log_eq_nil.mp h)
  obtain ⟨least, hleast⟩ : ∃ least, maxByKey (fun h => OrderDual.toDual h.since)
      (log agent history) = some least :=
    Option.ne_none_iff_exists'.mp fun h => hlog (maxByKey_eq_none.mp h)
  obtain ⟨hmem, hmin⟩ := maxByKey_spec hleast
  obtain ⟨r, hr, hcovers⟩ := exists_covers hordered hmem (Int.le_refl _)
  refine ⟨r, hr, hcovers.lasting, fun r' hr' => Int.le_trans hcovers.1 ?_⟩
  exact OrderDual.toDual_le_toDual.mp (hmin r' hr')

theorem Keeps.roleHeld (h : Keeps agent history s) (hordered : Ordered history) (scan : Scan)
    (htime : s.Retains time) :
    (history = [] → s.usageRoleHeld scan agent time = none) ∧ (history ≠ [] →
        ∃ role, s.usageRoleHeld scan agent time = some role ∧ InForce history time role) := by
  constructor
  · intro hnil
    have hheld : s.held scan agent .role = [] := by
      refine List.eq_nil_iff_forall_not_mem.mpr fun r hr => ?_
      have := h.held_subset hr
      rw [hnil] at this
      cases this
    simp only [usageRoleHeld, hheld, List.filter_nil]
    rfl
  · intro hne
    unfold usageRoleHeld
    cases hcovering : maxByKey (·.since)
        ((s.held scan agent .role).filter fun h => decide (Covers h time)) with
    | some r =>
      obtain ⟨hr, -⟩ := maxByKey_spec hcovering
      obtain ⟨hr, hcovers⟩ := List.mem_filter.mp hr
      exact ⟨_, rfl, inForce_of_covers hordered (h.held_subset hr) (of_decide_eq_true hcovers)⟩
    | none =>
      have hnone := List.filter_eq_nil_iff.mp (maxByKey_eq_none.mp hcovering)
      have hbefore : ∀ r ∈ log agent history, time < r.since := by
        intro r hr
        by_contra hle
        obtain ⟨r', hr', hcovers⟩ := exists_covers hordered hr (Int.not_lt.mp hle)
        refine hnone r' (h.mem_of_after htime hr' hcovers.lasting fun upTo hupTo => ?_)
          (decide_eq_true hcovers)
        exact Int.le_of_lt (hcovers.2 upTo hupTo)
      obtain ⟨first, hfirst, hlasting, hleast⟩ := exists_first_lasting hordered hne
      have hheld : first ∈ s.held scan agent .role := by
        refine h.mem_of_after htime hfirst hlasting fun upTo hupTo => ?_
        exact Int.le_of_lt (Int.lt_trans (hbefore first hfirst) (hlasting upTo hupTo))
      obtain ⟨r, hr⟩ : ∃ r, maxByKey (fun h => OrderDual.toDual h.since)
          (s.held scan agent .role) = some r :=
        Option.ne_none_iff_exists'.mp fun hnone => by
          rw [maxByKey_eq_none.mp hnone] at hheld
          cases hheld
      obtain ⟨hmem, hmin⟩ := maxByKey_spec hr
      refine ⟨_, by rw [hr, Option.none_or, Option.map_some], ?_⟩
      have hlog := h.held_subset hmem
      refine inForce_of_first hordered hlog (fun r' hr' => ?_) (hbefore r hlog)
      exact Int.le_trans (OrderDual.toDual_le_toDual.mp (hmin first hheld)) (hleast r' hr')

end

/-! ## Runs -/

theorem changes_snoc {ops : List Op} {op : Op} :
    changes agent (ops ++ [op]) = changes agent ops ++ changes agent [op] :=
  List.filterMap_append

theorem keeps_run {ops : List Op} (hordered : Ordered (changes agent ops)) :
    Keeps agent (changes agent ops) (ops.foldl step Holdings.empty) := by
  induction ops using List.reverseRecOn with
  | nil => exact .empty agent
  | append_singleton _ op ih =>
    rw [changes_snoc] at hordered ⊢
    rw [List.foldl_append]
    have h := ih (List.pairwise_append.mp hordered).1
    cases op with
    | holdingEnded isCard lease now =>
      rw [show changes agent [.holdingEnded isCard lease now] = [] from rfl, List.append_nil]
      exact h.holdingEnded isCard lease now
    | prune requested takes =>
      rw [show changes agent [.prune requested takes] = [] from rfl, List.append_nil]
      exact h.prune requested takes
    | roleChanged other registered before after now =>
      by_cases heq : other = agent
      · have hone : changes agent [.roleChanged other registered before after now] =
            [⟨registered, before, after, now⟩] := by simp [changes, heq]
        rw [hone] at hordered ⊢
        rw [heq]
        exact h.changed ⟨registered, before, after, now⟩ (ordered_snoc hordered).2
      · have hone : changes agent [.roleChanged other registered before after now] = [] := by
          simp [changes, heq]
        rw [hone, List.append_nil]
        exact h.changedOther heq

/-- Whatever else is kept and let go meanwhile, the roles an agent had at a time
from the boundary on are those its changes say, for changes recorded in the order
of their times. -/
theorem role_history_exact (scan : Scan) (agent : String) (ops : List Op)
    (hordered : Ordered (changes agent ops)) (time : Time)
    (htime : (ops.foldl step Holdings.empty).Retains time) :
    (changes agent ops = [] →
        (ops.foldl step Holdings.empty).usageRoleHeld scan agent time = none) ∧
      (changes agent ops ≠ [] →
        ∃ role, (ops.foldl step Holdings.empty).usageRoleHeld scan agent time = some role ∧
          InForce (changes agent ops) time role) :=
  (keeps_run hordered).roleHeld hordered scan htime

/-- An agent reviews for a while; history is let go in between. -/
def reviewed : List Op :=
  [.roleChanged "agent" 0 none (some "reviewer") 10, .prune 12 fun _ => true,
    .roleChanged "agent" 0 (some "reviewer") none 20]

theorem role_history_exact_reviewed :
    Ordered (changes "agent" reviewed) ∧ (reviewed.foldl step Holdings.empty).Retains 15 ∧
      (∃ role, (reviewed.foldl step Holdings.empty).usageRoleHeld
        ⟨id, fun _ => .refl _⟩ "agent" 15 =
        some role ∧ InForce (changes "agent" reviewed) 15 role) ∧
      (reviewed.foldl step Holdings.empty).usageRoleHeld ⟨id, fun _ => .refl _⟩ "agent" 15 =
        some (some "reviewer") := by
  have hordered : Ordered (changes "agent" reviewed) := by
    simp [Ordered, changes, reviewed]
  have hretains : (reviewed.foldl step Holdings.empty).Retains 15 := by
    intro since hsince
    cases hsince
    decide
  exact ⟨hordered, hretains,
    (role_history_exact _ "agent" reviewed hordered 15 hretains).2 (by simp [changes, reviewed]),
    by decide +kernel⟩

end AgentDocker.Store.Holdings
