import AgentDocker.Lib.Keyed
import Mathlib.Data.List.Lex
import Mathlib.Data.List.Sort

/-!
# Finite maps

A map from keys to values is a table of pairs told apart by their first part.
What an operation does is said by what `get` finds afterwards, under any key;
nothing that uses a map looks at its rows.

`sorted` is the walk of an ordered map, by key.
-/

namespace AgentDocker.Lib

abbrev Map (κ α : Type) : Type := Keyed (Prod.fst : κ × α → κ)

namespace Map

variable {κ α : Type} [DecidableEq κ]

def empty : Map κ α := Keyed.empty

section

variable (m : Map κ α) (k : κ)

def get : Option α := (m.get? k).map Prod.snd

/-- `v` under `k`, in place of whatever was there. -/
def set (v : α) : Map κ α := m.insert (k, v)

def remove : Map κ α := m.erase k

def retain (m : Map κ α) (p : κ → α → Bool) : Map κ α := m.filter fun row => p row.1 row.2

/-- The value under `k` changed in place, if there is one. -/
def modify (f : α → α) : Map κ α :=
  m.update (fun row => if row.1 = k then (row.1, f row.2) else row) fun row => by
    split <;> rfl

end

variable {m : Map κ α} {v : α} {k k' : κ} {p : κ × α → Bool}

theorem get_eq_some : m.get k = some v ↔ (k, v) ∈ m := by
  simp only [get, Option.map_eq_some_iff]
  constructor
  · rintro ⟨⟨_, _⟩, hget, rfl⟩
    obtain ⟨hmem, rfl⟩ := Keyed.get?_eq_some.mp hget
    exact hmem
  · intro hmem
    exact ⟨(k, v), Keyed.get?_eq_some.mpr ⟨hmem, rfl⟩, rfl⟩

@[simp] theorem get_empty : (empty : Map κ α).get k = none := rfl

theorem get_set : (m.set k v).get k' = if k' = k then some v else m.get k' := by
  refine Option.ext fun w => ?_
  rw [get_eq_some, set, Keyed.mem_insert, Prod.mk.injEq]
  by_cases hk : k' = k
  · simp [hk, eq_comm]
  · simp [hk, get_eq_some]

theorem get_remove : (m.remove k).get k' = if k' = k then none else m.get k' := by
  refine Option.ext fun w => ?_
  rw [get_eq_some, remove, Keyed.mem_erase]
  by_cases hk : k' = k
  · simp [hk]
  · simp [hk, get_eq_some]

theorem get_retain {p : κ → α → Bool} :
    (m.retain p).get k = (m.get k).filter (p k) := by
  refine Option.ext fun w => ?_
  rw [get_eq_some, retain, Keyed.mem_filter, Option.filter_eq_some_iff, get_eq_some]

theorem get_modify {f : α → α} :
    (m.modify k f).get k' = if k' = k then (m.get k').map f else m.get k' := by
  refine Option.ext fun w => ?_
  rw [get_eq_some, modify, Keyed.mem_update]
  by_cases hk : k' = k
  · subst hk
    simp only [if_true, Option.map_eq_some_iff, get_eq_some]
    constructor
    · rintro ⟨⟨_, v⟩, hmem, heq⟩
      split at heq
      · next hj =>
        cases heq
        exact ⟨v, hmem, rfl⟩
      next hj =>
      cases heq
      exact absurd rfl hj
    · rintro ⟨v, hmem, rfl⟩
      exact ⟨(k', v), hmem, by simp⟩
  · rw [if_neg hk, get_eq_some]
    constructor
    · rintro ⟨⟨_, _⟩, hmem, heq⟩
      split at heq
      · next hj =>
        cases heq
        exact absurd hj hk
      · cases heq
        exact hmem
    · intro hmem
      exact ⟨(k', w), hmem, by simp [hk]⟩

/-! ## The walk by key -/

variable [LinearOrder κ]

def sorted (m : Map κ α) : List (κ × α) := m.rows.mergeSort fun a b => decide (a.1 ≤ b.1)

theorem mem_sorted : (k, v) ∈ m.sorted ↔ m.get k = some v := by
  rw [get_eq_some, sorted, List.mem_mergeSort]
  exact Iff.rfl

/-- What a search of the walk finds. -/
theorem find?_sorted (h : m.sorted.find? p = some (k, v)) : m.get k = some v ∧ p (k, v) = true :=
  ⟨mem_sorted.mp (List.mem_of_find?_eq_some h), List.find?_some h⟩

/-- The first row at or after `k`. -/
def firstFrom (m : Map κ α) (k : κ) : Option (κ × α) := m.sorted.find? fun row => decide (k ≤ row.1)

/-- There is one no later than any row at or after `k`. -/
theorem exists_firstFrom (hget : m.get k' = some v) (hle : k ≤ k') :
    ∃ row, m.firstFrom k = some row ∧ k ≤ row.1 ∧ row.1 ≤ k' := by
  have hmem : (k', v) ∈ m.sorted := mem_sorted.mpr hget
  have hsorted : m.sorted.Pairwise fun a b => decide (a.1 ≤ b.1) = true :=
    List.pairwise_mergeSort (by grind) (by grind) _
  have hsome : (m.firstFrom k).isSome := by
    rw [firstFrom, List.find?_isSome]
    exact ⟨(k', v), hmem, decide_eq_true hle⟩
  obtain ⟨row, hrow⟩ := Option.isSome_iff_exists.mp hsome
  obtain ⟨hkey, _, _, hsplit, hbefore⟩ := List.find?_eq_some_iff_append.mp hrow
  refine ⟨row, hrow, of_decide_eq_true hkey, ?_⟩
  rw [hsplit] at hmem hsorted
  rcases List.mem_append.mp hmem with hmem | hmem
  · simpa [hle] using hbefore _ hmem
  · rcases List.mem_cons.mp hmem with rfl | hmem
    · exact le_refl _
    · exact of_decide_eq_true ((List.pairwise_cons.mp (List.pairwise_append.mp hsorted).2.1).1
        _ hmem)

end Map

/-! ## Keys that are lists -/

variable {α : Type} [LinearOrder α] {p q r : List α}

theorem le_append_right : p ≤ p ++ r := by
  induction p with
  | nil => simp [← not_lt]
  | cons _ _ ih => simpa [← not_lt, List.cons_lt_cons_iff] using ih

/-- Between a list and one it starts there are only lists it starts. -/
theorem isPrefix_of_between (hlow : p ≤ q) (hhigh : q ≤ p ++ r) : p <+: q := by
  induction p generalizing q with
  | nil => exact List.nil_prefix
  | cons c _ ih =>
    cases q with
    | nil => exact absurd hlow (by simp [← not_lt])
    | cons d =>
      rw [← not_lt, List.cons_lt_cons_iff] at hlow
      rw [List.cons_append, ← not_lt, List.cons_lt_cons_iff] at hhigh
      obtain rfl : c = d := by grind
      exact List.cons_prefix_cons.mpr ⟨rfl, ih (by grind) (by grind)⟩

end AgentDocker.Lib
