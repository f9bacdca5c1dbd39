import Mathlib.Data.List.Infix

/-!
# Spells in a record

A record notes things in the order they happen, and one kind of entry begins a new
spell. `since x` is what was noted since the last `x`; `OnceBetween x a` says that
`a` is noted at most once between one `x` and the next, wherever in the record. An
entry keeps this when it is not `a`, or when `a` was not noted in the spell it falls
in.
-/

namespace AgentDocker.Lib

variable {α : Type} [DecidableEq α] {x a : α} {l : List α}

/-- What was noted since the last `x`. -/
def since (x : α) (l : List α) : List α := (l.reverse.takeWhile fun b => decide (b ≠ x)).reverse

theorem since_concat (x : α) (l : List α) (b : α) :
    since x (l ++ [b]) = if b = x then [] else since x l ++ [b] := by
  by_cases hb : b = x <;> simp [since, hb]

/-- An end of the record without an `x` is within what was noted since. -/
theorem suffix_since {mid : List α} (h : mid <:+ l) (hx : x ∉ mid) : mid <:+ since x l := by
  induction l using List.reverseRecOn generalizing mid with
  | nil => simpa [since] using h
  | append_singleton _ _ ih =>
    rcases List.suffix_concat_iff.mp h with rfl | ⟨_, rfl, hmid⟩
    · exact List.nil_suffix
    · rw [List.mem_append, List.mem_singleton, not_or] at hx
      rw [since_concat, if_neg (Ne.symm hx.2)]
      obtain ⟨before, hbefore⟩ := ih hmid hx.1
      exact ⟨before, by rw [← List.append_assoc, hbefore]⟩

/-- Entries that are not `x` are added to the spell. -/
theorem since_append {more : List α} (hx : x ∉ more) : since x (l ++ more) = since x l ++ more := by
  induction more using List.reverseRecOn with
  | nil => simp
  | append_singleton _ _ ih =>
    rw [List.mem_append, List.mem_singleton, not_or] at hx
    rw [← List.append_assoc, since_concat, if_neg (Ne.symm hx.2), ih hx.1, List.append_assoc]

/-- A spell that began among the last entries is of these alone. -/
theorem mem_of_mem_since_append {more : List α} (hx : x ∈ more) (ha : a ∈ since x (l ++ more)) :
    a ∈ more := by
  induction more using List.reverseRecOn with
  | nil => cases hx
  | append_singleton _ _ ih =>
    rw [← List.append_assoc, since_concat] at ha
    split at ha
    · cases ha
    next hb =>
    rcases List.mem_append.mp ha with ha | ha
    · rcases List.mem_append.mp hx with hx | hx
      · exact List.mem_append_left _ (ih hx ha)
      · exact absurd (List.mem_singleton.mp hx).symm hb
    · exact List.mem_append_right _ ha

/-- `a` is noted at most once between one `x` and the next. -/
def OnceBetween (x a : α) (l : List α) : Prop :=
  ∀ mid, mid <:+: l → x ∉ mid → mid.count a ≤ 1

theorem OnceBetween.concat (h : OnceBetween x a l) {b : α} (hb : b = a → a ∉ since x l) :
    OnceBetween x a (l ++ [b]) := by
  intro mid hmid hx
  rcases List.infix_concat_iff.mp hmid with hmid | hmid
  · rcases List.suffix_concat_iff.mp hmid with rfl | ⟨mid', rfl, hmid'⟩
    · simp
    · rw [List.mem_append, not_or] at hx
      rw [List.count_append]
      by_cases hba : b = a
      · -- the last entry is the first of its spell
        have hnone : mid'.count a = 0 :=
          List.count_eq_zero.mpr fun hmem => hb hba ((suffix_since hmid' hx.1).mem hmem)
        simp [hnone, hba]
      · have hmid' := h mid' hmid'.isInfix hx.1
        have hlast : [b].count a = 0 := List.count_eq_zero.mpr (by simpa using Ne.symm hba)
        omega
  · exact h mid hmid hx

theorem OnceBetween.append (h : OnceBetween x a l) {more : List α} (ha : a ∉ more) :
    OnceBetween x a (l ++ more) := by
  induction more using List.reverseRecOn with
  | nil => simpa using h
  | append_singleton _ _ ih =>
    rw [List.mem_append, List.mem_singleton, not_or] at ha
    rw [← List.append_assoc]
    exact (ih ha.1).concat fun heq => absurd heq.symm ha.2

end AgentDocker.Lib
