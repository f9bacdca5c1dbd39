import AgentDocker.Daemon.ProviderBlocks
import AgentDocker.Proofs.Registry

/-!
# The index is what a scan would find

Whatever happens to a record, its id is set aside or taken out, so the index is right about
every id that is not set aside.
-/

namespace AgentDocker.Daemon.IndexedRegistry

open AgentDocker.Core Lib RecordRegistry

structure Indexed (s : IndexedRegistry) : Prop where
  nodup : s.providerBlocks.Nodup
  exact : ∀ id ∉ s.providerBlocksDirty, id ∈ s.providerBlocks ↔ s.blocked id = true

variable {s s' : IndexedRegistry} {r : RecordRegistry}

theorem mem_recheck {blocks : List AgentId} {id other : AgentId} :
    id ∈ s.recheck blocks other ↔ if id = other then s.blocked id = true else id ∈ blocks := by
  unfold recheck
  split <;> split <;> simp_all

theorem mem_foldl_recheck {dirty blocks : List AgentId} {id : AgentId} :
    id ∈ dirty.foldl s.recheck blocks ↔
      if id ∈ dirty then s.blocked id = true else id ∈ blocks := by
  induction dirty generalizing blocks with
  | nil => simp
  | cons other rest ih =>
    rw [List.foldl_cons, ih, mem_recheck]
    by_cases hrest : id ∈ rest
    · simp [hrest]
    · by_cases hsame : id = other <;> simp [hrest, hsame]

theorem nodup_foldl_recheck {dirty blocks : List AgentId} (h : blocks.Nodup) :
    (dirty.foldl s.recheck blocks).Nodup := by
  induction dirty generalizing blocks with
  | nil => exact h
  | cons _ _ ih =>
    refine ih ?_
    unfold recheck
    split
    · exact h.insert
    · exact h.filter _

section

variable (h : s.Indexed)
include h

/-- Setting an id aside covers whatever happens to its record. -/
theorem Indexed.dirtied {key : AgentId} (hblocks : s'.providerBlocks = s.providerBlocks)
    (hdirty : s'.providerBlocksDirty = s.providerBlocksDirty.insert key)
    (hrest : ∀ id ≠ key, s'.blocked id = s.blocked id) : s'.Indexed := by
  refine ⟨hblocks ▸ h.nodup, fun id hid => ?_⟩
  rw [hdirty, List.mem_insert_iff, not_or] at hid
  rw [hblocks, hrest id hid.1]
  exact h.exact id hid.2

theorem Indexed.without {gone : List AgentId}
    (howns : ∀ id, r.owns id = true ↔ s.owns id = true ∧ id ∉ gone) :
    (s.without r gone).Indexed := by
  refine ⟨h.nodup.filter _, fun id hid => ?_⟩
  have hblocked : (s.without r gone).blocked id = true ↔ s.blocked id = true ∧ id ∉ gone := by
    simp only [blocked, Bool.and_eq_true, IndexedRegistry.without, howns id]
    tauto
  rw [hblocked]
  simp only [IndexedRegistry.without, List.mem_filter, decide_eq_true_eq, not_and, not_not] at hid ⊢
  by_cases hgone : id ∈ gone
  · simp [hgone]
  · rw [h.exact id fun hdirty => hgone (hid hdirty)]

/-! ## Each call -/

theorem Indexed.insert (record : AgentRecord)
    (availability : Option ProviderAvailability) : (s.insert record availability).Indexed := by
  unfold IndexedRegistry.insert RecordRegistry.insert
  split
  · exact h
  next r heq =>
  have hr : r = { s.toRecordRegistry with agents := s.agents.insert record } := by grind
  refine h.dirtied rfl rfl fun id hid => ?_
  simp [blocked, RecordRegistry.owns, hr, Keyed.get?_insert, Ne.symm hid, hid]

theorem Indexed.getMut (id : AgentId)
    (change : AgentRecord → Option ProviderAvailability →
      AgentRecord × Option ProviderAvailability) :
    (s.getMut id change).Indexed := by
  unfold IndexedRegistry.getMut
  dsimp only
  split
  · exact h.dirtied rfl rfl fun _ _ => rfl
  · refine h.dirtied rfl rfl fun other hother => ?_
    simp [blocked, RecordRegistry.owns, Keyed.get?_insert, Ne.symm hother, hother]

theorem Indexed.retireInto (retired canonical : AgentId) :
    (s.retireInto retired canonical).Indexed := by
  unfold IndexedRegistry.retireInto
  rcases s.retireInto_cases retired canonical with ⟨_, heq⟩ | ⟨_, -, heq, hids⟩
  · rw [heq]
    exact h
  · rw [heq]
    obtain ⟨-, -, -, -, hleft⟩ := Registry.retireInto_ok hids
    refine h.without fun id => ?_
    rw [owns_iff, owns_iff, hleft, Registry.mem_left, List.mem_singleton]

theorem Indexed.foldInto (gone : List AgentId) (canonical : AgentId) :
    (s.foldInto gone canonical).Indexed := by
  unfold IndexedRegistry.foldInto
  rcases s.foldInto_cases gone canonical with ⟨_, heq⟩ | ⟨_, heq, hids⟩
  · rw [heq]
    exact h
  · rw [heq]
    obtain ⟨-, -, -, -, hleft⟩ := Registry.foldInto_ok hids
    refine h.without fun id => ?_
    rw [owns_iff, owns_iff, hleft, List.mem_filter, decide_eq_true_eq]

theorem Indexed.restoreAliases (rows : List AliasRow) : (s.restoreAliases rows).Indexed := by
  have hagents : (s.toRecordRegistry.restoreAliases rows).2.agents = s.agents := by
    unfold RecordRegistry.restoreAliases
    split <;> rfl
  have hblocked : (s.restoreAliases rows).blocked = s.blocked := by
    funext id
    simp [blocked, RecordRegistry.owns, IndexedRegistry.restoreAliases, hagents]
  refine ⟨h.nodup, fun id hid => ?_⟩
  rw [hblocked]
  exact h.exact id hid

theorem Indexed.remove (id : AgentId) : (s.remove id).Indexed := by
  refine h.without fun other => ?_
  rw [owns_iff, owns_iff, ids_remove, List.mem_singleton, ← canonicalId_ids]
  exact Registry.mem_left

theorem Indexed.mem_providerBlockIds {id : AgentId} :
    id ∈ s.providerBlockIds.1 ↔ s.blocked id = true := by
  unfold providerBlockIds
  rw [mem_foldl_recheck]
  split
  · rfl
  · next hclean => exact h.exact id hclean

theorem Indexed.step (c : Call) : (s.step c).Indexed := by
  cases c with
  | insert record availability => exact h.insert record availability
  | getMut id change => exact h.getMut id change
  | retireInto retired canonical => exact h.retireInto retired canonical
  | foldInto gone canonical => exact h.foldInto gone canonical
  | restoreAliases rows => exact h.restoreAliases rows
  | remove id => exact h.remove id
  | providerBlockIds => exact ⟨nodup_foldl_recheck h.nodup, fun id _ => h.mem_providerBlockIds⟩

end

/-- After any calls the index is what a scan of every record would find. -/
theorem providerBlockIds_scan (calls : List Call) : (run step new calls).providerBlockIds.1.Nodup ∧
      ∀ id, id ∈ (run step new calls).providerBlockIds.1 ↔
        (∃ record ∈ (run step new calls).agents, record.id = id) ∧
          ∃ state, (run step new calls).availability id = some state ∧
            state.issue.isSome = true := by
  have h : (run step new calls).Indexed :=
    (always_of_invariant ⟨List.nodup_nil, fun _ _ => by simp [new, blocked, RecordRegistry.owns,
      RecordRegistry.new, Keyed.get?, Keyed.empty]⟩ fun s c h => h.step c).last
  refine ⟨nodup_foldl_recheck h.nodup, fun id => ?_⟩
  rw [h.mem_providerBlockIds, blocked, Bool.and_eq_true, owns_iff, Option.any_eq_true]
  exact and_congr_left' List.mem_map

end AgentDocker.Daemon.IndexedRegistry
