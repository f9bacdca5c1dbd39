import AgentDocker.Daemon.Registry
import AgentDocker.Lib.Runs

/-!
# One id, one record

What keeps the ids in order is that aliases are flat: each points at a record,
and none is one. Every call keeps that. What is retired was a record and what it
points at stays one, aliases that pointed at it are pointed on, and a record
that is forgotten takes its aliases with it. So an id is looked up once, and
looking up what was found finds the same.

The argument is about ids alone. It is made over `Registry`, and a registry with
records takes it over through its ids, since each of its calls either refuses
and leaves everything, or does to the ids what the call of `Registry` does.
-/

namespace AgentDocker.Daemon

open AgentDocker.Core Lib Keyed

namespace Registry

variable {r r' : Registry} {retired canonical : AgentId} {gone : List AgentId}

/-- An id that stands for itself. -/
def Canonical (r : Registry) (a : AgentId) : Prop := r.canonicalId a = a

instance (r : Registry) (a : AgentId) : Decidable (r.Canonical a) :=
  inferInstanceAs (Decidable (_ = _))

variable {a : AgentId}

theorem canonical_of_get?_none (h : r.aliases.get? a = none) : r.Canonical a := by
  rw [Canonical, canonicalId, h]

/-- Each alias points at a record, and none is one. -/
structure Flat (r : Registry) : Prop where
  kept : ∀ known ∈ r.aliases, known.canonical ∈ r.agents
  retired : ∀ known ∈ r.aliases, known.retired ∉ r.agents

theorem Flat.get?_of_mem (h : r.Flat) {id : AgentId} (hid : id ∈ r.agents) :
    r.aliases.get? id = none :=
  get?_eq_none.mpr fun known hknown heq => h.retired known hknown (heq ▸ hid)

theorem Flat.canonicalId (h : r.Flat) (id : AgentId) :
    r.canonicalId (r.canonicalId id) = r.canonicalId id := by
  cases hget : r.aliases.get? id with
  | none =>
    have hid : r.canonicalId id = id := canonical_of_get?_none hget
    rw [hid, hid]
  | some known =>
    have hid : r.canonicalId id = known.canonical := by rw [Registry.canonicalId, hget]
    rw [hid]
    exact canonical_of_get?_none (h.get?_of_mem (h.kept known (get?_eq_some.mp hget).1))

/-- A record that is retired was one, as was the one that stays, and no id stood for it. -/
theorem retireInto_ok (h : r.retireInto retired canonical = .ok r') :
    retired ≠ canonical ∧ canonical ∈ r.agents ∧ retired ∈ r.agents ∧
      (∀ known ∈ r.aliases, known.canonical ≠ retired) ∧
      r' = ⟨r.agents.filter fun a => decide (a ≠ retired),
        r.aliases.insert ⟨retired, canonical⟩⟩ := by
  unfold Registry.retireInto at h
  split at h
  · cases h
  next hne =>
  split at h
  · cases h
  next hcanonical =>
  split at h
  · cases h
  next hretired =>
  split at h
  · cases h
  next hstands =>
  cases h
  refine ⟨hne, by simpa using hcanonical, by simpa using hretired, ?_, rfl⟩
  intro known hknown heq
  exact hstands (List.any_eq_true.mpr ⟨known, hknown, by simp [heq]⟩)

/-- What a record's retirement makes of an id. -/
theorem retireInto_canonicalId (h : r.retireInto retired canonical = .ok r') (a : AgentId) :
    r'.canonicalId a = if a = retired then canonical else r.canonicalId a := by
  obtain ⟨-, -, -, -, rfl⟩ := retireInto_ok h
  unfold canonicalId
  rw [get?_insert]
  by_cases ha : a = retired
  · simp [ha]
  · simp [ha, Ne.symm ha]

theorem mem_left :
    a ∈ (r.agents.filter fun a => decide (a ≠ retired)) ↔ a ∈ r.agents ∧ a ≠ retired := by
  rw [List.mem_filter, decide_eq_true_eq]

theorem Flat.retireInto (h : r.Flat) (hok : r.retireInto retired canonical = .ok r') : r'.Flat := by
  obtain ⟨hne, hcanonical, -, hstands, rfl⟩ := retireInto_ok hok
  constructor
  · intro known hknown
    rw [mem_left]
    rcases mem_insert.mp hknown with rfl | ⟨hknown, -⟩
    · exact ⟨hcanonical, hne.symm⟩
    · exact ⟨h.kept known hknown, hstands known hknown⟩
  · intro known hknown hmem
    obtain ⟨hmem, hother⟩ := mem_left.mp hmem
    rcases mem_insert.mp hknown with rfl | ⟨hknown, -⟩
    · exact hother rfl
    · exact h.retired known hknown hmem

/-- Nothing is said against a fold of records that are there, each once, and not the one
that stays. -/
theorem foldError_eq_none {seen : List AgentId} :
    r.foldError canonical gone seen = none ↔
      canonical ∉ gone ∧ (∀ id ∈ gone, id ∈ r.agents) ∧ gone.Nodup ∧ ∀ id ∈ gone, id ∉ seen := by
  induction gone generalizing seen with
  | nil => simp [foldError]
  | cons id _ ih =>
    rw [foldError]
    split
    · next heq => simp [heq]
    next hne =>
    split
    · next hout => simp [hout]
    next hin =>
    split
    · next hseen => simp [hseen]
    next hnew =>
    rw [not_not] at hin
    rw [ih, List.forall_mem_cons, List.forall_mem_cons, List.nodup_cons]
    simp only [List.mem_cons, not_or]
    constructor
    · rintro ⟨hcanonical, hown, hnodup, hseen⟩
      exact ⟨⟨Ne.symm hne, hcanonical⟩, ⟨hin, hown⟩,
        ⟨fun hmem => (hseen id hmem).1 rfl, hnodup⟩, hnew,
        fun a ha => (hseen a ha).2⟩
    · rintro ⟨⟨-, hcanonical⟩, ⟨-, hown⟩, ⟨honce, hnodup⟩, -, hseen⟩
      exact ⟨hcanonical, hown, hnodup, fun a ha => ⟨fun heq => honce (heq ▸ ha), hseen a ha⟩⟩

theorem foldInto_ok (h : r.foldInto gone canonical = .ok r') :
    canonical ∈ r.agents ∧ canonical ∉ gone ∧ (∀ id ∈ gone, id ∈ r.agents) ∧ gone.Nodup ∧
      r' = ⟨r.agents.filter fun a => decide (a ∉ gone),
        gone.foldl (fun aliases id => aliases.insert ⟨id, canonical⟩)
          (r.aliases.update (retarget gone canonical) (retarget_retired gone canonical))⟩ := by
  unfold Registry.foldInto at h
  split at h
  · cases h
  next hcanonical =>
  split at h
  · cases h
  next hnone =>
  cases h
  obtain ⟨hout, hown, hnodup, -⟩ := foldError_eq_none.mp hnone
  exact ⟨by simpa using hcanonical, hout, hown, hnodup, rfl⟩

/-- The aliases after a fold: the records that left, and those there were. -/
theorem mem_foldl_insert {t : Keyed AgentAlias.retired} {known : AgentAlias} :
    known ∈ gone.foldl (fun aliases id => aliases.insert ⟨id, canonical⟩) t ↔
      (known.retired ∈ gone ∧ known.canonical = canonical) ∨
        (known ∈ t ∧ known.retired ∉ gone) := by
  induction gone generalizing t with
  | nil => simp
  | cons id _ ih =>
    have hnew : known = ⟨id, canonical⟩ ↔ known.retired = id ∧ known.canonical = canonical := by
      cases known
      simp
    rw [List.foldl_cons, ih, mem_insert, hnew, List.mem_cons]
    tauto

/-- What the aliases of records folded into one come to. -/
theorem get?_foldl_insert {retired : List AgentId} (canonical : AgentId)
    (t : Keyed AgentAlias.retired) (ha : a ∉ retired) :
    (retired.foldl (fun aliases id => aliases.insert ⟨id, canonical⟩) t).get? a = t.get? a := by
  induction retired generalizing t with
  | nil => rfl
  | cons _ _ ih =>
    rw [List.mem_cons, not_or] at ha
    rw [List.foldl_cons, ih _ ha.2, get?_insert, if_neg (Ne.symm ha.1)]

/-- An id that stood for itself and was not retired still does. -/
theorem Canonical.folded (ha : r.Canonical a) {retired : List AgentId} (hr : a ∉ retired)
    (canonical : AgentId) :
    (r.folded retired canonical).Canonical a := by
  unfold Registry.folded
  split
  · next r' h =>
    obtain ⟨-, -, -, -, rfl⟩ := foldInto_ok h
    unfold Canonical canonicalId at ha ⊢
    rw [get?_foldl_insert canonical _ hr, get?_update]
    cases hget : r.aliases.get? a with
    | none => rfl
    | some =>
      rw [hget] at ha
      dsimp only [Option.map_some] at ha ⊢
      rw [retarget, ha, if_neg hr, ha]
  · exact ha

theorem Flat.foldInto (h : r.Flat) (hok : r.foldInto gone canonical = .ok r') : r'.Flat := by
  obtain ⟨hcanonical, hout, _, _, rfl⟩ := foldInto_ok hok
  have hleft : ∀ a, a ∈ (r.agents.filter fun a => decide (a ∉ gone)) ↔ a ∈ r.agents ∧ a ∉ gone := by
    intro a
    rw [List.mem_filter, decide_eq_true_eq]
  constructor
  · intro known hknown
    rw [hleft]
    rcases mem_foldl_insert.mp hknown with ⟨-, rfl⟩ | ⟨hknown, -⟩
    · exact ⟨hcanonical, hout⟩
    · obtain ⟨old, hold, rfl⟩ := mem_update.mp hknown
      unfold retarget
      split
      · exact ⟨hcanonical, hout⟩
      · next hstays => exact ⟨h.kept old hold, hstays⟩
  · intro known hknown hmem
    obtain ⟨hmem, hstays⟩ := (hleft _).mp hmem
    rcases mem_foldl_insert.mp hknown with ⟨hgone, -⟩ | ⟨hknown, -⟩
    · exact hstays hgone
    · obtain ⟨old, hold, rfl⟩ := mem_update.mp hknown
      rw [retarget_retired] at hmem
      exact h.retired old hold hmem

theorem Canonical.remove (ha : r.Canonical a) (id : AgentId) : (r.remove id).Canonical a := by
  unfold Canonical canonicalId at ha ⊢
  unfold Registry.remove
  rw [get?_filter]
  cases hget : r.aliases.get? a with
  | none => rfl
  | some known =>
    rw [hget] at ha
    by_cases hp : known.canonical = r.canonicalId id
    · rw [Option.filter_some_neg (by simp [hp])]
    · rw [Option.filter_some_pos (by simp [hp])]
      exact ha

theorem Flat.remove (h : r.Flat) (id : AgentId) : (r.remove id).Flat := by
  constructor
  · intro known hknown
    obtain ⟨hknown, hother⟩ := mem_filter.mp hknown
    exact mem_left.mpr ⟨h.kept known hknown, by simpa using hother⟩
  · intro known hknown hmem
    exact h.retired known (mem_filter.mp hknown).1 (mem_left.mp hmem).1

end Registry

namespace RecordRegistry

variable {r : RecordRegistry} {canonical : AgentId} {gone : List AgentId}

/-! ## What the calls do to the ids -/

theorem owns_iff {id : AgentId} : r.owns id = true ↔ id ∈ r.ids.agents := by
  unfold owns ids
  rw [Option.isSome_iff_exists, List.mem_map]
  exact exists_congr fun record => get?_eq_some

theorem canonicalId_ids (id : AgentId) : r.ids.canonicalId id = r.canonicalId id := by
  unfold Registry.canonicalId canonicalId ids
  cases r.aliases.get? id <;> rfl

theorem ids_erase {t : Keyed AgentRecord.id} {id : AgentId} :
    (t.erase id).rows.map AgentRecord.id =
      (t.rows.map AgentRecord.id).filter fun a => decide (a ≠ id) := by
  rw [List.filter_map]
  rfl

theorem ids_retire {record : AgentRecord} :
    (r.retire canonical record).ids = ⟨r.ids.agents.filter fun a => decide (a ≠ record.id),
        r.aliases.insert ⟨record.id, canonical⟩⟩ := by
  unfold retire ids
  rw [ids_erase]

/-- A retirement is refused and leaves everything, or is one of the ids. -/
theorem retireInto_cases (r : RecordRegistry) (retired canonical : AgentId) :
    (∃ error, r.retireInto retired canonical = (.error error, r)) ∨
      ∃ record ∈ r.agents, r.retireInto retired canonical =
        (.ok record, r.retire canonical record) ∧
        r.ids.retireInto retired canonical = .ok (r.retire canonical record).ids := by
  unfold retireInto
  split
  · exact .inl ⟨_, rfl⟩
  next hne =>
  split
  · exact .inl ⟨_, rfl⟩
  next hcanonical =>
  split
  · exact .inl ⟨_, rfl⟩
  next record hget =>
  obtain ⟨hrecord, rfl⟩ := get?_eq_some.mp hget
  split
  · exact .inl ⟨_, rfl⟩
  next hstands =>
  refine .inr ⟨record, hrecord, rfl, ?_⟩
  have hcanonical : canonical ∈ r.ids.agents := owns_iff.mp (by simpa using hcanonical)
  have hretired : record.id ∈ r.ids.agents := List.mem_map_of_mem hrecord
  rw [Registry.retireInto, if_neg hne, if_neg (not_not.mpr hcanonical),
    if_neg (not_not.mpr hretired), ids_retire]
  exact if_neg hstands

theorem foldError_ids {seen : List AgentId} :
    r.foldError canonical gone seen = none ↔ r.ids.foldError canonical gone seen = none := by
  induction gone generalizing seen with
  | nil => simp [foldError, Registry.foldError]
  | cons id _ ih =>
    have hown : (!r.owns id) = true ↔ id ∉ r.ids.agents := by
      rw [Bool.not_eq_true', ← Bool.not_eq_true, owns_iff]
    rw [foldError, Registry.foldError]
    simp only [hown]
    split
    · simp
    · split
      · simp
      · split
        · simp
        · exact ih

/-- Records leaving one after the other leave the ids the others have. -/
theorem ids_retireAll (hnodup : gone.Nodup) (hown : ∀ id ∈ gone, id ∈ r.ids.agents) :
    (retireAll canonical gone r).2.ids = ⟨r.ids.agents.filter fun a => decide (a ∉ gone),
        gone.foldl (fun aliases id => aliases.insert ⟨id, canonical⟩) r.aliases⟩ := by
  induction gone generalizing r with
  | nil => simp [retireAll, ids]
  | cons _ _ ih =>
    obtain ⟨honce, hrestNodup⟩ := List.nodup_cons.mp hnodup
    obtain ⟨hid, hrest⟩ := List.forall_mem_cons.mp hown
    obtain ⟨_, hrecord⟩ := Option.isSome_iff_exists.mp (owns_iff.mpr hid)
    obtain ⟨-, rfl⟩ := get?_eq_some.mp hrecord
    rw [retireAll, hrecord]
    rw [ih hrestNodup, ids_retire, List.filter_filter, List.foldl_cons]
    · refine congrArg (Registry.mk · _) (List.filter_congr fun a _ => ?_)
      simp only [List.mem_cons, not_or, Bool.decide_and]
      rw [Bool.and_comm]
    · intro a ha
      rw [ids_retire, Registry.mem_left]
      exact ⟨hrest a ha, fun heq => honce (heq ▸ ha)⟩

/-- A fold is refused and leaves everything, or is one of the ids. -/
theorem foldInto_cases (r : RecordRegistry) (gone : List AgentId) (canonical : AgentId) :
    (∃ error, r.foldInto gone canonical = (.error error, r)) ∨
      ∃ records, r.foldInto gone canonical =
          (.ok records, (retireAll canonical gone (r.retargeted gone canonical)).2) ∧
        r.ids.foldInto gone canonical =
          .ok (retireAll canonical gone (r.retargeted gone canonical)).2.ids := by
  unfold foldInto
  split
  · exact .inl ⟨_, rfl⟩
  next hcanonical =>
  split
  · exact .inl ⟨_, rfl⟩
  next hnone =>
  refine .inr ⟨_, rfl, ?_⟩
  have hcanonical : canonical ∈ r.ids.agents := owns_iff.mp (by simpa using hcanonical)
  have hnone := foldError_ids.mp hnone
  obtain ⟨-, hown, hnodup, -⟩ := Registry.foldError_eq_none.mp hnone
  rw [Registry.foldInto, if_neg (not_not.mpr hcanonical), hnone]
  exact congrArg Except.ok (ids_retireAll (r := r.retargeted gone canonical) hnodup hown).symm

theorem ids_remove (r : RecordRegistry) (id : AgentId) : (r.remove id).2.ids = r.ids.remove id := by
  unfold remove Registry.remove
  rw [canonicalId_ids]
  rw [ids, ids_erase]
  rfl

/-! ## The invariant -/

/-- Every name kept of a retired record is one an alias stands for. -/
def Named (r : RecordRegistry) : Prop :=
  ∀ n ∈ r.retiredNames, ∃ known ∈ r.aliases, known.retired = n.retired

theorem Named.retire (h : r.Named) (record : AgentRecord) : (r.retire canonical record).Named := by
  intro n hn
  refine exists_insert.mpr ?_
  rcases mem_insert.mp hn with rfl | ⟨hn, -⟩
  · exact .inr rfl
  · exact .inl (h n hn)

theorem Named.retireAll (h : r.Named) : (retireAll canonical gone r).2.Named := by
  induction gone generalizing r with
  | nil => exact h
  | cons _ _ ih =>
    unfold RecordRegistry.retireAll
    split
    · exact ih h
    · exact ih (h.retire _)

theorem Named.retargeted (h : r.Named) : (r.retargeted gone canonical).Named := by
  intro n hn
  obtain ⟨known, hknown, heq⟩ := h n hn
  have hmem : Registry.retarget gone canonical known ∈ r.aliases.update
      (Registry.retarget gone canonical) (Registry.retarget_retired gone canonical) :=
    mem_update.mpr ⟨known, hknown, rfl⟩
  exact ⟨_, hmem, (Registry.retarget_retired gone canonical known).trans heq⟩

structure Sound (r : RecordRegistry) : Prop where
  flat : r.ids.Flat
  named : r.Named

variable {rows : List AliasRow}

/-- An alias that was checked points at a record and is none. -/
theorem checkAliases_ok {checked checked' : Keyed AgentAlias.retired}
    (h : r.checkAliases rows checked = .ok checked') :
    (∀ known ∈ checked', known ∈ checked ∨
      (known.canonical ∈ r.ids.agents ∧ known.retired ∉ r.ids.agents)) ∧
    (∀ known ∈ checked, ∃ kept ∈ checked', kept.retired = known.retired) ∧
    ∀ row ∈ rows, ∃ kept ∈ checked', kept.retired = row.retired := by
  induction rows generalizing checked with
  | nil =>
    cases h
    exact ⟨fun known hknown => .inl hknown, fun known hknown => ⟨known, hknown, rfl⟩, by simp⟩
  | cons row _ ih =>
    rw [checkAliases] at h
    split at h
    · cases h
    · split at h
      · cases h
      next hretired =>
      split at h
      · cases h
      next hcanonical =>
      split at h
      · cases h
      · obtain ⟨hmade, hkept, hrows⟩ := ih h
        have hrow := hkept row.toAgentAlias (mem_insert.mpr (.inl rfl))
        refine ⟨fun known hknown => ?_, fun known hknown => ?_,
          List.forall_mem_cons.mpr ⟨hrow, hrows⟩⟩
        · rcases hmade known hknown with hmem | hmade
          · rcases mem_insert.mp hmem with rfl | ⟨hmem, -⟩
            · exact .inr ⟨owns_iff.mp (by simpa using hcanonical),
                fun hin => hretired (owns_iff.mpr hin)⟩
            · exact .inl hmem
          · exact .inr hmade
        · by_cases heq : known.retired = row.retired
          · rw [heq]
            exact hrow
          · exact hkept known (mem_insert.mpr (.inr ⟨hknown, heq⟩))

theorem mem_restoredNames {n : RetiredName} (h : n ∈ restoredNames rows) :
    ∃ row ∈ rows, row.retired = n.retired := by
  rcases mem_of_mem_foldl_insert h with h | h
  · obtain ⟨row, hrow, hname⟩ := List.mem_filterMap.mp h
    obtain ⟨_, -, rfl⟩ := Option.map_eq_some_iff.mp hname
    exact ⟨row, hrow, rfl⟩
  · exact absurd h not_mem_empty

theorem Sound.restoreAliases (h : r.Sound) (rows : List AliasRow) :
    (r.restoreAliases rows).2.Sound := by
  unfold RecordRegistry.restoreAliases
  split
  · exact h
  next checked hok =>
  obtain ⟨hmade, -, hrows⟩ := checkAliases_ok hok
  refine ⟨⟨fun known hknown => ?_, fun known hknown => ?_⟩, fun n hn => ?_⟩
  · exact ((hmade known hknown).resolve_left not_mem_empty).1
  · exact ((hmade known hknown).resolve_left not_mem_empty).2
  · obtain ⟨row, hrow, heq⟩ := mem_restoredNames hn
    rw [← heq]
    exact hrows row hrow

theorem Sound.insert (h : r.Sound) (record : AgentRecord) : (r.insert record).2.Sound := by
  unfold RecordRegistry.insert
  split
  · exact h
  next hreserved =>
  split
  · exact h
  · refine ⟨⟨fun known hknown => ?_, fun known hknown hmem => ?_⟩, h.named⟩
    · exact List.mem_map.mpr (exists_insert.mpr (.inl (List.mem_map.mp (h.flat.kept known hknown))))
    · rcases exists_insert.mp (List.mem_map.mp hmem) with hold | heq
      · exact h.flat.retired known hknown (List.mem_map.mpr hold)
      · -- a retired id is not given out again
        refine hreserved (Option.isSome_iff_exists.mpr ⟨known, ?_⟩)
        exact get?_eq_some.mpr ⟨hknown, heq.symm⟩

theorem Sound.remove (h : r.Sound) (id : AgentId) : (r.remove id).2.Sound := by
  refine ⟨?_, fun n hn => ?_⟩
  · rw [ids_remove]
    exact h.flat.remove id
  · obtain ⟨-, hsome⟩ := mem_filter.mp hn
    obtain ⟨known, hknown⟩ := Option.isSome_iff_exists.mp hsome
    exact ⟨known, get?_eq_some.mp hknown⟩

theorem Sound.step (h : r.Sound) (c : Call) : (r.step c).Sound := by
  cases c with
  | insert record => exact h.insert record
  | retireInto retired canonical =>
    show (r.retireInto retired canonical).2.Sound
    rcases r.retireInto_cases retired canonical with ⟨_, heq⟩ | ⟨record, -, heq, hids⟩
    · rw [heq]
      exact h
    · rw [heq]
      exact ⟨h.flat.retireInto hids, h.named.retire record⟩
  | foldInto gone canonical =>
    show (r.foldInto gone canonical).2.Sound
    rcases r.foldInto_cases gone canonical with ⟨_, heq⟩ | ⟨_, heq, hids⟩
    · rw [heq]
      exact h
    · rw [heq]
      exact ⟨h.flat.foldInto hids, h.named.retargeted.retireAll⟩
  | restoreAliases rows => exact h.restoreAliases rows
  | remove id => exact h.remove id

theorem sound_new : new.Sound :=
  ⟨⟨fun _ h => absurd h not_mem_empty, fun _ h => absurd h not_mem_empty⟩,
    fun _ h => absurd h not_mem_empty⟩

/-- A call that is refused leaves everything. -/
theorem call_refused (r : RecordRegistry) (c : Call) {error : Refusal}
    (h : (r.call c).1 = .error error) : (r.call c).2 = r := by
  cases c with
  | insert record =>
    show (r.insert record).2 = r
    replace h : (r.insert record).1.mapError Refusal.registry = .error error := h
    unfold RecordRegistry.insert at h ⊢
    split at h
    · next hreserved => rw [if_pos hreserved]
    next hfree =>
    rw [if_neg hfree]
    split at h
    · next htaken => rw [if_pos htaken]
    · cases h
  | retireInto retired canonical =>
    show (r.retireInto retired canonical).2 = r
    rcases r.retireInto_cases retired canonical with ⟨_, heq⟩ | ⟨_, -, heq, -⟩
    · rw [heq]
    · rw [call, heq] at h
      cases h
  | foldInto gone canonical =>
    show (r.foldInto gone canonical).2 = r
    rcases r.foldInto_cases gone canonical with ⟨_, heq⟩ | ⟨_, heq, -⟩
    · rw [heq]
    · rw [call, heq] at h
      cases h
  | restoreAliases rows =>
    show (r.restoreAliases rows).2 = r
    replace h : (r.restoreAliases rows).1.mapError Refusal.identity = .error error := h
    unfold RecordRegistry.restoreAliases at h ⊢
    split at h
    · rfl
    · cases h
  | remove => cases h

/-- What resolving ids relies on. -/
structure Identity (r : RecordRegistry) : Prop where
  idempotent : ∀ id, r.canonicalId (r.canonicalId id) = r.canonicalId id
  direct : ∀ known ∈ r.aliases, r.owns known.canonical = true ∧
    r.aliases.get? known.canonical = none ∧ known.canonical ≠ known.retired
  apart : ∀ id, r.owns id = true → r.aliases.get? id = none
  unchanged : ∀ c error, (r.call c).1 = .error error →
    (r.call c).2.agents = r.agents ∧ (r.call c).2.aliases = r.aliases

/-- However a registry came about, an id stands for one record or for none. -/
theorem run_identity (calls : List Call) : (run step new calls).Identity := by
  have h : (run step new calls).Sound :=
    (always_of_invariant sound_new fun r c h => h.step c).last
  refine ⟨fun id => ?_, fun known hknown => ?_, fun id hid => ?_, fun c error herror => ?_⟩
  · have hflat := h.flat.canonicalId id
    rwa [canonicalId_ids, canonicalId_ids] at hflat
  · have hkept := h.flat.kept known hknown
    refine ⟨owns_iff.mpr hkept, h.flat.get?_of_mem hkept, fun heq => ?_⟩
    exact h.flat.retired known hknown (heq ▸ hkept)
  · exact h.flat.get?_of_mem (owns_iff.mp hid)
  · rw [call_refused _ c herror]
    exact ⟨rfl, rfl⟩

end RecordRegistry

end AgentDocker.Daemon
