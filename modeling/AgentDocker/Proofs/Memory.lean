import AgentDocker.Core.Memory

/-!
# Memories a reader may not see

Everything said is computed from `known`, so a memory the reader may not see changes
nothing, whichever way its links point. Memories have ids of their own, and with them the
order they are stored in does not show either.
-/

namespace AgentDocker.Core.Memory

open Lib

variable {ms ms' : Keyed Memory.id} {reader : Reader}

/-- Two sets of memories a reader sees the same of. -/
def Agree (reader : Reader) (ms ms' : Keyed Memory.id) : Prop :=
  ∀ m : Memory, m.seenBy reader = true → (m ∈ ms ↔ m ∈ ms')

theorem nodup_known {time : Time} : ((known ms.rows reader time).map Memory.id).Nodup :=
  ms.nodup.sublist (List.filter_sublist.map _)

theorem known_perm (h : Agree reader ms ms') {time : Time} :
    (known ms.rows reader time).Perm (known ms'.rows reader time) := by
  refine (List.perm_ext_iff_of_nodup (nodup_known ..).of_map
    (nodup_known ..).of_map).mpr fun m => ?_
  simp only [known, List.mem_filter, Bool.and_eq_true]
  exact and_congr_left fun hm => h m hm.1

/-- No two memories replace another alike: the one that does is told by its id. -/
theorem ranked_replaces {time : Time} :
    Ranked (fun r : Replaced => toLex (r.time, r.new))
      ((known ms.rows reader time).filterMap replaces) := by
  intro r hr r' hr' hrank
  obtain ⟨m, hm, old, hold, rfl⟩ : ∃ m ∈ known ms.rows reader time, ∃ old, m.supersedes = some old ∧
      ⟨old, m.id, m.trueSince⟩ = r := by simpa [replaces] using hr
  obtain ⟨m', hm', _, hold', rfl⟩ : ∃ m ∈ known ms.rows reader time, ∃ old,
      m.supersedes = some old ∧ ⟨old, m.id, m.trueSince⟩ = r' := by simpa [replaces] using hr'
  have hid : m.id = m'.id := congrArg Prod.snd (toLex.injective hrank)
  obtain rfl := List.inj_on_of_nodup_map nodup_known hm hm' hid
  rw [hold] at hold'
  cases hold'
  rfl

theorem mem_superseded_iff (h : Agree reader ms ms') {time : Time} (r : Replaced) :
    r ∈ superseded ms.rows reader time ↔ r ∈ superseded ms'.rows reader time := by
  have hmem : ∀ r, r ∈ (known ms.rows reader time).filterMap replaces ↔
      r ∈ (known ms'.rows reader time).filterMap replaces :=
    fun r => ((known_perm h).filterMap _).mem_iff
  rw [superseded, superseded, mem_latest ranked_replaces, mem_latest ranked_replaces]
  constructor
  · exact fun hr => ⟨(hmem r).mp hr.mem, fun b hb => hr.le b ((hmem b).mpr hb)⟩
  · exact fun hr => ⟨(hmem r).mpr hr.mem, fun b hb => hr.le b ((hmem b).mp hb)⟩

theorem current_eq (h : Agree reader ms ms') {time : Time} :
    current ms.rows reader time = current ms'.rows reader time := by
  have hreplaced : ∀ m : Memory,
      (superseded ms.rows reader time).any (fun r => decide (r.old = m.id)) =
      (superseded ms'.rows reader time).any fun r => decide (r.old = m.id) := by
    intro m
    rw [Bool.eq_iff_iff, List.any_eq_true, List.any_eq_true]
    simp only [mem_superseded_iff h]
  simp only [current, hreplaced]
  refine sortBy_eq_of_perm (((known_perm h).filter _).trans (sortBy_perm _ _).symm)
    (pairwise_lt_sortBy ?_)
  -- ids tell the memories apart, so the order they are said in is theirs
  refine List.Nodup.of_map (fun k => (ofLex k).2) ?_
  rw [List.map_map]
  exact nodup_known.sublist (List.filter_sublist.map _)

/-- Memories hidden from a reader change nothing that reader is told. -/
theorem reads_confined (reader : Reader) (ms ms' : Keyed Memory.id) (h : Agree reader ms ms')
    (time : Time) :
    (∀ m, m ∈ known ms.rows reader time ↔ m ∈ known ms'.rows reader time) ∧
      (∀ r, r ∈ superseded ms.rows reader time ↔ r ∈ superseded ms'.rows reader time) ∧
      current ms.rows reader time = current ms'.rows reader time ∧
      ∀ maxChars, profile ms.rows maxChars reader time = profile ms'.rows maxChars reader time := by
  refine ⟨fun m => (known_perm h).mem_iff, mem_superseded_iff h, current_eq h, fun maxChars => ?_⟩
  rw [profile, profile, current_eq h]

def decided : Memory := ⟨"a", "ship on Friday", none, 1, false, none, [], none⟩

/-- A decision told to one role alone, in the place of the one everybody knows. -/
def revised : Memory := ⟨"b", "ship on Monday", some "a", 2, false, none, ["ops"], none⟩

theorem reads_confined_revised : current [decided, revised] (.holding ["ops"]) 3 = [revised] ∧
      current [decided, revised] (.holding []) 3 = current [decided] (.holding []) 3 := by
  refine ⟨by decide, (reads_confined (.holding []) ⟨[decided, revised], by decide⟩
    ⟨[decided], by decide⟩ (fun m hm => ?_) 3).2.2.1⟩
  have hne : m ≠ revised := by
    rintro rfl
    revert hm
    decide
  simp [Keyed.mem_def, hne]

end AgentDocker.Core.Memory
