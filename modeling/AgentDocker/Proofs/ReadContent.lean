import AgentDocker.Daemon.ReadContent

/-!
# Reads above a path and beneath it

Everything beneath a path follows it without interruption: of the keys at or after the path
one look at the first is enough.
-/

namespace AgentDocker.Daemon.Proofs

open AgentDocker.Core Lib

variable {R : Type}

/-- The agent has a recorded read of that path. -/
def Read (reads : Map (AgentId ×ₗ Path) R) (agent : AgentId) (path : Path) : Prop :=
  (reads.get (toLex (agent, path))).isSome

/-- A read beneath the path is at or after it, and so is everything between. -/
theorem firstFrom_of_read {reads : Map (AgentId ×ₗ Path) R} {agent : AgentId} {path read : Path}
    (hread : Read reads agent read) (hbeneath : path <+: read) :
    ∃ row, reads.firstFrom (toLex (agent, path)) = some row ∧ (ofLex row.1).1 = agent ∧
      path <+: (ofLex row.1).2 := by
  obtain ⟨_, hget⟩ := Option.isSome_iff_exists.mp hread
  obtain ⟨rest, rfl⟩ := hbeneath
  have hle : toLex (agent, path) ≤ toLex (agent, path ++ rest) :=
    Prod.Lex.le_iff.mpr (.inr ⟨rfl, le_append_right⟩)
  obtain ⟨row, hrow, hlow, hhigh⟩ := Map.exists_firstFrom hget hle
  rw [Prod.Lex.le_iff, ofLex_toLex] at hlow hhigh
  rcases hlow with hlow | ⟨hagent, hlow⟩
  · exact absurd (hhigh.elim (fun h => h.le) fun h => h.1.le) (not_le.mpr hlow)
  · rcases hhigh with hhigh | ⟨-, hhigh⟩
    · exact absurd hagent.symm hhigh.ne
    · exact ⟨row, hrow, hagent.symm, isPrefix_of_between hlow hhigh⟩

/-- Exactly the agents that read the path, one above it or one beneath it. -/
theorem interested_iff (reads : Map (AgentId ×ₗ Path) R) (agent : AgentId) (path : Path) :
    interested reads agent path = true ↔
      ∃ read, Read reads agent read ∧ (read ∈ path.ancestors ∨ path <+: read) := by
  rw [interested, Bool.or_eq_true, List.any_eq_true, Option.any_eq_true]
  constructor
  · rintro (⟨ancestor, hmem, hread⟩ | ⟨⟨key, v⟩, hrow, hkey⟩)
    · exact ⟨ancestor, hread, .inl hmem⟩
    · obtain ⟨hget, -⟩ := Map.find?_sorted hrow
      rw [Bool.and_eq_true, decide_eq_true_eq, List.isPrefixOf_iff_prefix] at hkey
      refine ⟨(ofLex key).2, ?_, .inr hkey.2⟩
      rw [Read, ← hkey.1]
      exact Option.isSome_iff_exists.mpr ⟨v, hget⟩
  · rintro ⟨read, hread, hmem | hbeneath⟩
    · exact .inl ⟨read, hmem, hread⟩
    · obtain ⟨row, hrow, hagent, hprefix⟩ := firstFrom_of_read hread hbeneath
      refine .inr ⟨row, hrow, ?_⟩
      rw [Bool.and_eq_true, decide_eq_true_eq, List.isPrefixOf_iff_prefix]
      exact ⟨hagent, hprefix⟩

end AgentDocker.Daemon.Proofs
